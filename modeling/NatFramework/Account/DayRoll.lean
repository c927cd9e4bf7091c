import NatFramework.Account.RollUp
import NatFramework.Lib.Json

/-!
# The two ways into the next trading day

`AccBase::onSwitchDay` rolls a live account over; `to_json` and `from_json` save
an account and load it, already rolled over, into a fresh one. Every unit does
the day roll twice, and which records survive is decided by two different tests:
ten volume fields in `to_json`, the two positions in `onSwitchDay`.

* `UnitVol.fromJson_toJson` and its siblings: loading a saved unit is its day roll.
* `Loaded`: what the loop over the saved instruments has built so far.
* `VolInv`: products sum up the volumes of their instruments, in `double` too.
* `dayRoll_of_reachable`: both ways give the same records for every non-zero
  position, and zeros otherwise: the amounts in exact arithmetic, and for an
  account without negative positions.
-/
namespace NatFramework.Account

open Lib

variable {α : Type} [OfNat α 0]

/-! ## Saving and loading the units -/

namespace UnitVol

/-- mirrors account/UnitVol.cpp:5-26 -/
def toJson (u : UnitVol) : Json α :=
  .obj [("pos_long_yd_ini", .int u.posLongYdIni), ("pos_long_yd_cls_ing", .int u.posLongYdClsIng),
    ("pos_long_yd", .int u.posLongYd), ("pos_long_td_opn_ing", .int u.posLongTdOpnIng),
    ("pos_long_td_cls_ing", .int u.posLongTdClsIng), ("pos_long_td", .int u.posLongTd),
    ("pos_long", .int u.posLong), ("pos_short_yd_ini", .int u.posShortYdIni),
    ("pos_short_yd_cls_ing", .int u.posShortYdClsIng), ("pos_short_yd", .int u.posShortYd),
    ("pos_short_td_opn_ing", .int u.posShortTdOpnIng),
    ("pos_short_td_cls_ing", .int u.posShortTdClsIng), ("pos_short_td", .int u.posShortTd),
    ("pos_short", .int u.posShort), ("pos_buy", .int u.posBuy), ("pos_sell", .int u.posSell)]

/-- mirrors account/UnitVol.cpp:28-56 -/
def fromJson [CutOff α] (j : Json α) : Option UnitVol := do
  let posLongYdIni ← (j.get "pos_long").getInt
  let posLongYd ← (j.get "pos_long").getInt
  let posLong ← (j.get "pos_long").getInt
  let posShortYdIni ← (j.get "pos_short").getInt
  let posShortYd ← (j.get "pos_short").getInt
  let posShort ← (j.get "pos_short").getInt
  some
    { posLongYdIni, posLongYdClsIng := 0, posLongYd, posLongTdOpnIng := 0, posLongTdClsIng := 0
      posLongTd := 0, posLong, posShortYdIni, posShortYdClsIng := 0, posShortYd
      posShortTdOpnIng := 0, posShortTdClsIng := 0, posShortTd := 0, posShort, posBuy := 0
      posSell := 0 }

omit [OfNat α 0] in
theorem fromJson_toJson [CutOff α] (u : UnitVol) : fromJson (u.toJson : Json α) = some u.onSwitchDay :=
  rfl

/-- The test of `to_json`.
mirrors account/AccBase.cpp:145-149,158-162 -/
def saved (u : UnitVol) : Bool :=
  0 != u.posLongYdIni || 0 != u.posLongYdClsIng || 0 != u.posLongTdOpnIng ||
    0 != u.posLongTdClsIng || 0 != u.posLong || 0 != u.posShortYdIni || 0 != u.posShortYdClsIng ||
    0 != u.posShortTdOpnIng || 0 != u.posShortTdClsIng || 0 != u.posShort

/-- Neither a long nor a short position. -/
def Flat (u : UnitVol) : Prop := 0 = u.posLong ∧ 0 = u.posShort

theorem saved_of_not_flat {u : UnitVol} (h : ¬ u.Flat) : u.saved = true := by
  unfold Flat at h
  unfold saved
  simp only [Bool.or_eq_true, bne_iff_ne]
  tauto

end UnitVol

namespace UnitAmt

/-- mirrors account/UnitAmt.cpp:5-20 -/
def toJson (u : UnitAmt α) : Json α :=
  .obj [("amt_long_yd_sub_ing", .num u.amtLongYdSubIng),
    ("amt_long_td_add_ing", .num u.amtLongTdAddIng),
    ("amt_long_td_sub_ing", .num u.amtLongTdSubIng), ("amt_long", .num u.amtLong),
    ("amt_short_yd_sub_ing", .num u.amtShortYdSubIng),
    ("amt_short_td_add_ing", .num u.amtShortTdAddIng),
    ("amt_short_td_sub_ing", .num u.amtShortTdSubIng), ("amt_short", .num u.amtShort),
    ("amt_buy", .num u.amtBuy), ("amt_sell", .num u.amtSell)]

/-- mirrors account/UnitAmt.cpp:22-44 -/
def fromJson [IntCast α] (j : Json α) : Option (UnitAmt α) := do
  let amtLong ← (j.get "amt_long").getNum
  let amtShort ← (j.get "amt_short").getNum
  some
    { amtLongYdSubIng := 0, amtLongTdAddIng := 0, amtLongTdSubIng := 0, amtLong
      amtShortYdSubIng := 0, amtShortTdAddIng := 0, amtShortTdSubIng := 0, amtShort, amtBuy := 0
      amtSell := 0 }

theorem fromJson_toJson [IntCast α] (u : UnitAmt α) : fromJson u.toJson = some u.onSwitchDay := rfl

end UnitAmt

namespace UnitPx

/-- mirrors account/UnitPx.cpp:5-14 -/
def toJson (u : UnitPx α) : Json α :=
  .obj [("stl_px_yd", .num u.stlPxYd), ("last_px", .num u.lastPx), ("avg_px_buy", .num u.avgPxBuy),
    ("avg_px_sell", .num u.avgPxSell)]

/-- mirrors account/UnitPx.cpp:16-32 -/
def fromJson [IntCast α] (j : Json α) : Option (UnitPx α) := do
  let stlPxYd ← (j.get "last_px").getNum
  let lastPx ← (j.get "last_px").getNum
  some { stlPxYd, lastPx, avgPxBuy := 0, avgPxSell := 0 }

theorem fromJson_toJson [IntCast α] (u : UnitPx α) : fromJson u.toJson = some u.onSwitchDay := rfl

end UnitPx

namespace UnitPnl

/-- mirrors account/UnitPnl.cpp:5-12 -/
def toJson (u : UnitPnl α) : Json α := .obj [("pos_pnl", .num u.posPnl), ("trd_pnl", .num u.trdPnl)]

/-- mirrors account/UnitPnl.cpp:14-28 -/
def fromJson (_ : Json α) : Option (UnitPnl α) := some { posPnl := 0, trdPnl := 0 }

theorem fromJson_toJson (u : UnitPnl α) : fromJson u.toJson = some u.onSwitchDay := rfl

end UnitPnl

/-! ## Saving and loading the three levels -/

namespace ModInstr

/-- mirrors account/ModInstr.cpp:20-28 -/
def toJson (m : ModInstr α) : Json α :=
  .obj [("unit_vol", m.unitVol.toJson), ("unit_amt", m.unitAmt.toJson), ("unit_px", m.unitPx.toJson),
    ("unit_pnl", m.unitPnl.toJson)]

/-- mirrors account/ModInstr.cpp:30-52 -/
def fromJson [CutOff α] [IntCast α] (j : Json α) (m : ModInstr α) : Option (ModInstr α) := do
  let unitVol ← UnitVol.fromJson (j.get "unit_vol")
  let unitAmt ← UnitAmt.fromJson (j.get "unit_amt")
  let unitPx ← UnitPx.fromJson (j.get "unit_px")
  let unitPnl ← UnitPnl.fromJson (j.get "unit_pnl")
  some { m with unitVol, unitAmt, unitPx, unitPnl }

theorem fromJson_toJson [CutOff α] [IntCast α] (m m' : ModInstr α) :
    m'.fromJson m.toJson = some
      { m' with
        unitVol := m.unitVol.onSwitchDay, unitAmt := m.unitAmt.onSwitchDay
        unitPx := m.unitPx.onSwitchDay, unitPnl := m.unitPnl.onSwitchDay } := rfl

end ModInstr

namespace ModPrd

/-- mirrors account/ModPrd.cpp:12-20 -/
def toJson (q : ModPrd α) : Json α :=
  .obj [("unit_vol", q.unitVol.toJson), ("unit_amt", q.unitAmt.toJson), ("unit_pnl", q.unitPnl.toJson)]

/-- mirrors account/ModPrd.cpp:22-43 -/
def fromJson [CutOff α] [IntCast α] (j : Json α) (q : ModPrd α) : Option (ModPrd α) := do
  let unitVol ← UnitVol.fromJson (j.get "unit_vol")
  let unitAmt ← UnitAmt.fromJson (j.get "unit_amt")
  let unitPnl ← UnitPnl.fromJson (j.get "unit_pnl")
  some { q with unitVol, unitAmt, unitPnl }

theorem fromJson_toJson [CutOff α] [IntCast α] (q q' : ModPrd α) :
    q'.fromJson q.toJson = some
      { q' with
        unitVol := q.unitVol.onSwitchDay, unitAmt := q.unitAmt.onSwitchDay
        unitPnl := q.unitPnl.onSwitchDay } := rfl

end ModPrd

namespace ModAcc

/-- mirrors account/ModAcc.cpp:5-13 -/
def toJson (x : ModAcc α) : Json α :=
  .obj [("unfilled_order_cnt", .int x.unfilledOrderCnt), ("unit_amt", x.unitAmt.toJson),
    ("unit_pnl", x.unitPnl.toJson)]

/-- mirrors account/ModAcc.cpp:15-32 -/
def fromJson [IntCast α] (j : Json α) : Option (ModAcc α) := do
  let unitAmt ← UnitAmt.fromJson (j.get "unit_amt")
  let unitPnl ← UnitPnl.fromJson (j.get "unit_pnl")
  some { unfilledOrderCnt := 0, unitAmt, unitPnl }

theorem fromJson_toJson [IntCast α] (x : ModAcc α) : fromJson x.toJson = some x.onSwitchDay := rfl

end ModAcc

namespace AccBase

/-- The loops write `null` when nothing is saved.
mirrors account/AccBase.cpp:135-170 -/
def toJson (a : AccBase α) : Json α :=
  .obj [("mod_acc", a.modAcc.toJson),
    ("mod_prd", Json.collect (fun e => e.2.unitVol.saved) (fun e => e.2.prdName)
      (fun e => e.2.toJson) a.mapPrd.nodes.entries),
    ("mod_instr", Json.collect (fun e => e.2.unitVol.saved) (fun e => e.2.instrName)
      (fun e => e.2.toJson) a.mapInstr.nodes.entries)]

variable (info : TradeBaseInfo)

/-- mirrors account/AccBase.cpp:180-193 -/
def loadInstr [CutOff α] [IntCast α] (a : AccBase α) (e : String × Json α) :
    Option (AccBase α) :=
  match a.regInstr info e.1 with
  | (_, false) => none
  | (a, true) =>
    ((a.instrAt (info.nameHash e.1)).fromJson e.2).map fun m =>
      { a with mapInstr := a.mapInstr.set (info.nameHash e.1) m }

/-- mirrors account/AccBase.cpp:195-205 -/
def loadPrd [CutOff α] [IntCast α] (a : AccBase α) (e : String × Json α) : Option (AccBase α) :=
  ((a.prdAt (info.nameHash e.1)).fromJson e.2).map fun q =>
    { a with mapPrd := a.mapPrd.set (info.nameHash e.1) q }

/-- mirrors account/AccBase.cpp:172-208 -/
def fromJson [CutOff α] [IntCast α] (j : Json α) (a : AccBase α) : Option (AccBase α) := do
  let modAcc ← ModAcc.fromJson (j.get "mod_acc")
  let a ← (j.get "mod_instr").members.foldlM (loadInstr info) { a with modAcc }
  (j.get "mod_prd").members.foldlM (loadPrd info) a

variable {info} {a b : AccBase α}

/-! ## The saved records -/

def savedInstrs (a : AccBase α) : List (Sigma fun _ : Hash => ModInstr α) :=
  a.mapInstr.nodes.entries.filter fun e => e.2.unitVol.saved

def savedPrds (a : AccBase α) : List (Sigma fun _ : Hash => ModPrd α) :=
  a.mapPrd.nodes.entries.filter fun e => e.2.unitVol.saved

theorem mem_savedInstrs {e : Sigma fun _ : Hash => ModInstr α} :
    e ∈ a.savedInstrs ↔ a.mapInstr.find e.1 = some e.2 ∧ e.2.unitVol.saved = true := by
  rw [savedInstrs, List.mem_filter, NodeMap.find]
  exact and_congr_left' AList.mem_lookup_iff.symm

theorem mem_savedPrds {e : Sigma fun _ : Hash => ModPrd α} :
    e ∈ a.savedPrds ↔ a.mapPrd.find e.1 = some e.2 ∧ e.2.unitVol.saved = true := by
  rw [savedPrds, List.mem_filter, NodeMap.find]
  exact and_congr_left' AList.mem_lookup_iff.symm

theorem nodup_savedInstrs (a : AccBase α) : (a.savedInstrs.map Sigma.fst).Nodup :=
  List.Nodup.sublist (List.filter_sublist.map _) a.mapInstr.nodes.nodupKeys

theorem nodup_savedPrds (a : AccBase α) : (a.savedPrds.map Sigma.fst).Nodup :=
  List.Nodup.sublist (List.filter_sublist.map _) a.mapPrd.nodes.nodupKeys

/-- The name of a record determines the key it lies under. -/
theorem nodup_names (info : TradeBaseInfo) {ν : Type} {l : List (Sigma fun _ : Hash => ν)} (name : Hash → ν → String)
    (hl : (l.map Sigma.fst).Nodup) (hn : ∀ e ∈ l, info.nameHash (name e.1 e.2) = e.1) :
    (l.map fun e => name e.1 e.2).Nodup := by
  apply List.Nodup.of_map info.nameHash
  rw [List.map_map, List.map_congr_left (g := Sigma.fst)]
  · exact hl
  · exact hn

theorem members_instr (hw : WF info a) :
    (a.toJson.get "mod_instr").members = a.savedInstrs.map fun e => (e.2.instrName, e.2.toJson) := by
  refine Json.members_collect _ _ _ _
    (nodup_names info (fun _ m => m.instrName) a.mapInstr.nodes.nodupKeys ?_)
  intro e he
  obtain ⟨i, p, hen⟩ := hw.instr e.1 e.2 (AList.mem_lookup_iff.mpr he)
  exact hen.instrName

theorem members_prd (hw : WF info a) :
    (a.toJson.get "mod_prd").members = a.savedPrds.map fun e => (e.2.prdName, e.2.toJson) := by
  refine Json.members_collect _ _ _ _
    (nodup_names info (fun _ q => q.prdName) a.mapPrd.nodes.nodupKeys ?_)
  intro e he
  obtain ⟨h, i, hf, hk, hn⟩ := hw.prd e.1 e.2 (AList.mem_lookup_iff.mpr he)
  rw [hn, TradeBaseInfo.nameHash_product hf, hk]

/-! ## Loading them -/

section Loading

variable [CutOff α] [IntCast α]

/-- The account after the instruments `done` have been loaded into an empty one:
their products are there as registration makes them. -/
structure Loaded (info : TradeBaseInfo) (done : List (Sigma fun _ : Hash => ModInstr α))
    (b : AccBase α) : Prop where
  instr : ∀ e ∈ done, ∃ p, b.mapInstr.find e.1 = some { e.2.onSwitchDay with pPrd := some p }
  only : ∀ h, (b.mapInstr.find h).isSome → h ∈ done.map Sigma.fst
  fresh : ∀ k q, b.mapPrd.find k = some q →
    ∃ h i, info.find h = some i ∧ i.productHash = k ∧ q = freshPrd i
  prd : ∀ e ∈ done, ∀ i, info.find e.1 = some i → (b.mapPrd.find i.productHash).isSome

/-- One turn of the loop over the instruments. -/
theorem Loaded.loadInstr {done : List (Sigma fun _ : Hash => ModInstr α)}
    {e : Sigma fun _ : Hash => ModInstr α} {i : InstrumentInfo} {p : Ptr Hash} (hb : Loaded info done b)
    (he : Entry info a e.1 e.2 i p) (hv : 0 ≤ i.volMultiple) (hnew : e.1 ∉ done.map Sigma.fst) :
    ∃ b', AccBase.loadInstr info b (e.2.instrName, e.2.toJson) = some b' ∧
      Loaded info (done ++ [e]) b' ∧ b'.modAcc = b.modAcc := by
  obtain ⟨h, m⟩ := e
  have hf := he.known
  have hn := he.instrName
  simp only at hf hn hnew he
  have hnone : b.mapInstr.find h = none := by
    rw [← Option.not_isSome_iff_eq_none]
    exact fun hx => hnew (hb.only h hx)
  have hat : (b.reg m.instrName h i).instrAt h =
      freshInstr m.instrName i (b.mapPrd.addr i.productHash) := by
    rw [instrAt, reg_find, if_pos rfl, hnone]
    rfl
  refine ⟨{ b.reg m.instrName h i with
    mapInstr := (b.reg m.instrName h i).mapInstr.set h
      { m.onSwitchDay with pPrd := some (b.mapPrd.addr i.productHash) } }, ?_, ?_, ?_⟩
  · simp only [AccBase.loadInstr, regInstr_eq (a := b) hn hf hv, hn, hat, ModInstr.fromJson_toJson,
      Option.map_some]
    simp [freshInstr, ModInstr.onSwitchDay, he.pAcc, he.volMultiple]
  · refine ⟨?_, ?_, ?_, ?_⟩
    · intro e' he'
      simp only [NodeMap.find_set]
      rcases List.mem_append.mp he' with he' | he'
      · have hne : e'.1 ≠ h := fun hx => hnew (hx ▸ List.mem_map_of_mem he')
        rw [if_neg hne, reg_find, if_neg hne]
        exact hb.instr e' he'
      · obtain rfl := List.mem_singleton.mp he'
        exact ⟨b.mapPrd.addr i.productHash, if_pos rfl⟩
    · intro h' hx
      rw [List.map_append, List.mem_append, List.map_singleton, List.mem_singleton]
      simp only [NodeMap.find_set] at hx
      split at hx
      · exact Or.inr ‹_›
      · rename_i hne
        rw [reg_find, if_neg hne] at hx
        exact Or.inl (hb.only h' hx)
    · intro k q hq
      simp only [reg_mapPrd, regPrd_find] at hq
      split at hq
      · rename_i hk
        cases hq' : b.mapPrd.find k with
        | none => exact ⟨h, i, hf, hk.symm, by simpa [hq'] using hq.symm⟩
        | some q' => exact hb.fresh k q (by simpa [hq'] using hq)
      · exact hb.fresh k q hq
    · intro e' he' i' hf'
      simp only [reg_mapPrd]
      rcases List.mem_append.mp he' with he' | he'
      · exact isSome_find_regPrd (hb.prd e' he' i' hf')
      · obtain rfl := List.mem_singleton.mp he'
        obtain rfl : i = i' := by simpa [hf] using hf'
        rw [regPrd_find, if_pos rfl]
        rfl
  · simp

/-- The loop over the instruments. -/
theorem Loaded.loadInstrs (hw : WF info a) (hv : info.VolMultiplesOk)
    {done es : List (Sigma fun _ : Hash => ModInstr α)} (hb : Loaded info done b)
    (hes : ∀ e ∈ es, a.mapInstr.find e.1 = some e.2) (hnd : ((done ++ es).map Sigma.fst).Nodup) :
    ∃ b', (es.map fun e => (e.2.instrName, e.2.toJson)).foldlM (AccBase.loadInstr info) b = some b' ∧
      Loaded info (done ++ es) b' ∧ b'.modAcc = b.modAcc := by
  induction es generalizing done b with
  | nil => exact ⟨b, rfl, by simpa using hb, rfl⟩
  | cons e es ih =>
    obtain ⟨i, p, he⟩ := hw.instr e.1 e.2 (hes e List.mem_cons_self)
    have hnew : e.1 ∉ done.map Sigma.fst := by
      rw [List.map_append, List.nodup_append'] at hnd
      exact fun hx => hnd.2.2 hx (List.mem_map_of_mem List.mem_cons_self)
    obtain ⟨b1, h1, hb1, hacc1⟩ := hb.loadInstr he (hv _ i he.known) hnew
    obtain ⟨b2, h2, hb2, hacc2⟩ := ih hb1 (fun e' he' => hes e' (List.mem_cons_of_mem e he'))
      (by rwa [List.append_assoc])
    refine ⟨b2, ?_, by rwa [List.append_assoc] at hb2, hacc2.trans hacc1⟩
    rw [List.map_cons, List.foldlM_cons, h1]
    exact h2

/-- The loop over the products writes their units and touches nothing else. -/
theorem loadPrds {qs : List (Sigma fun _ : Hash => ModPrd α)}
    (hname : ∀ e ∈ qs, info.nameHash e.2.prdName = e.1) (hnd : (qs.map Sigma.fst).Nodup) (b : AccBase α) :
    ∃ b', (qs.map fun e => (e.2.prdName, e.2.toJson)).foldlM (AccBase.loadPrd info) b = some b' ∧
      b'.mapInstr = b.mapInstr ∧ b'.modAcc = b.modAcc ∧
      (∀ e ∈ qs, b'.mapPrd.find e.1 = some
        { e.2.onSwitchDay with prdName := (b.prdAt e.1).prdName }) ∧
      ∀ k, k ∉ qs.map Sigma.fst → b'.mapPrd.find k = b.mapPrd.find k := by
  induction qs generalizing b with
  | nil => exact ⟨b, rfl, rfl, rfl, fun e he => (by cases he), fun _ _ => rfl⟩
  | cons e qs ih =>
    rw [List.map_cons, List.nodup_cons] at hnd
    have hk := hname e List.mem_cons_self
    obtain ⟨b', h1, h2, h3, h4, h5⟩ := ih (fun e' he' => hname e' (List.mem_cons_of_mem e he')) hnd.2
      { b with mapPrd := b.mapPrd.set e.1 { e.2.onSwitchDay with prdName := (b.prdAt e.1).prdName } }
    refine ⟨b', ?_, h2, h3, ?_, ?_⟩
    · rw [List.map_cons, List.foldlM_cons]
      simp only [AccBase.loadPrd, hk, ModPrd.fromJson_toJson, Option.map_some]
      exact h1
    · intro e' he'
      rcases List.mem_cons.mp he' with rfl | he'
      · rw [h5 _ hnd.1]
        simp
      · have hne : e'.1 ≠ e.1 := fun hx => hnd.1 (hx ▸ List.mem_map_of_mem he')
        rw [h4 e' he']
        simp [prdAt, hne]
    · intro k hk'
      rw [List.map_cons, List.mem_cons, not_or] at hk'
      rw [h5 k hk'.2]
      simp [hk'.1]

end Loading

/-! ## The same next day -/

/-- `live` and `loaded` agree as the next day of `a`: a record of a non-zero
position is in both, with the same fields, the address of its product apart;
any other record that one of them has holds no volume and no pnl. -/
structure SameRecords (a live loaded : AccBase α) : Prop where
  instr : ∀ h m, a.mapInstr.find h = some m → ¬ m.unitVol.Flat → ∃ m1 m2,
    live.mapInstr.find h = some m1 ∧ loaded.mapInstr.find h = some m2 ∧
      m2 = { m1 with pPrd := m2.pPrd }
  prd : ∀ k q, a.mapPrd.find k = some q → ¬ q.unitVol.Flat → ∃ q',
    live.mapPrd.find k = some q' ∧ loaded.mapPrd.find k = some q'
  acc : live.modAcc = loaded.modAcc
  flatInstr : ∀ h, (∀ m, a.mapInstr.find h = some m → m.unitVol.Flat) → ∀ m,
    live.mapInstr.find h = some m ∨ loaded.mapInstr.find h = some m →
      m.unitVol = 0 ∧ m.unitPnl = {}
  flatPrd : ∀ k, (∀ q, a.mapPrd.find k = some q → q.unitVol.Flat) → ∀ q,
    live.mapPrd.find k = some q ∨ loaded.mapPrd.find k = some q →
      q.unitVol = 0 ∧ q.unitPnl = {}

/-- A record without position that one of the two has holds no amount. -/
structure FlatAmts (a live loaded : AccBase α) : Prop where
  instr : ∀ h, (∀ m, a.mapInstr.find h = some m → m.unitVol.Flat) → ∀ m,
    live.mapInstr.find h = some m ∨ loaded.mapInstr.find h = some m → m.unitAmt = {}
  prd : ∀ k, (∀ q, a.mapPrd.find k = some q → q.unitVol.Flat) → ∀ q,
    live.mapPrd.find k = some q ∨ loaded.mapPrd.find k = some q → q.unitAmt = {}

/-- No instrument is net negative on either side. -/
def NoNegative (a : AccBase α) : Prop :=
  ∀ h m, a.mapInstr.find h = some m → 0 ≤ m.unitVol.posLong ∧ 0 ≤ m.unitVol.posShort

/-! ### The volumes of the products -/

/-- The day roll of a sum of volumes. -/
def rollVol : UnitVol →+ UnitVol where
  toFun := UnitVol.onSwitchDay
  map_zero' := rfl
  map_add' u v := by ext <;> simp [UnitVol.onSwitchDay]

theorem rollVol_flat {u : UnitVol} (hu : u.Flat) : rollVol u = 0 := by
  change u.onSwitchDay = 0
  ext <;> simp [UnitVol.onSwitchDay, ← hu.1, ← hu.2]

/-- Products sum up the volumes of their instruments, in whatever numbers the
amounts are. -/
structure VolInv (info : TradeBaseInfo) (a : AccBase α) : Prop extends WF info a where
  roll : Rolls (fun m => m.unitVol) (fun q => q.unitVol) a

section Volumes

variable {h k : Hash} {i : InstrumentInfo} {m : ModInstr α} {q : ModPrd α}

theorem volInv_empty : VolInv info ({} : AccBase α) where
  toWF := linked_empty.toWF
  roll _ _ hx := by cases hx

theorem VolInv.reg {name : String} (ha : VolInv info a) (hn : info.nameHash name = h)
    (hf : info.find h = some i) : VolInv info (a.reg name h i) where
  toWF := ha.toWF.reg hn hf
  roll := ha.roll.reg ha.toWF (fun _ => rfl) rfl

theorem VolInv.onInstr (ha : VolInv info a) (hv : ∀ i, info.find h = some i → 0 ≤ i.volMultiple)
    {f : Books α → Books α} (hk : ∀ b, Keeps b (f b)) : VolInv info (a.onInstr info h f) := by
  cases hf : info.find h with
  | none => rw [onInstr_unknown f hf]; exact ha
  | some i =>
    have hr := ha.reg (TradeBaseInfo.nameHash_instr hf) hf
    rcases onInstr_cases ha.toWF hf (hv i hf) f with ⟨hat, he⟩ | ⟨-, he⟩
    · rw [he]
      obtain ⟨i', p, hen⟩ := hr.instr _ _ reg_find_self
      obtain rfl : i = i' := by have := hen.known; rw [hf] at this; simpa using this
      have hp := hen.attached_iff.mp hat
      have hb := hk (a.booksAt h i)
      refine ⟨hr.toWF.put reg_find_self reg_find_prd ?_, ?_⟩
      · rw [reg_modAcc]
        exact hb
      · exact hr.roll.put reg_find_self (hp ▸ hen.pPrd) reg_find_prd hb.pPrd hb.unitVol
    · rw [he]
      exact hr

theorem VolInv.onSwitchDay (ha : VolInv info a) : VolInv info a.onSwitchDay where
  toWF := ha.toWF.onSwitchDay
  roll := ha.roll.onSwitchDay rollVol (fun _ => rfl) (fun _ => rfl) fun _ _ _ h0 => rollVol_flat h0

variable [OfNat α 1] [Add α] [Sub α] [Mul α] [Div α] [Neg α] [IntCast α] [DecidableEq α]

theorem volInv_apply {e : AccEvent α} (hv : e.MultipleOk info) (ha : VolInv info a) :
    VolInv info (e.apply info a) := by
  have hv' : ∀ h, e.about info = some h → ∀ i, info.find h = some i → 0 ≤ i.volMultiple :=
    fun h hh i hf => hv h i hh hf
  cases e with
  | regInstr name =>
    cases hf : info.find (info.nameHash name) with
    | none =>
      have : a.regInstr info name = (a, false) := by simp [AccBase.regInstr, hf]
      simp only [AccEvent.apply, this]
      exact ha
    | some i =>
      simp only [AccEvent.apply, regInstr_eq (a := a) rfl hf (hv' _ rfl i hf)]
      exact ha.reg rfl hf
  | new dir off px vol h => exact ha.onInstr (hv' h rfl) fun b => Keeps.onNew b dir off px vol
  | rtn t r => exact ha.onInstr (hv' _ rfl) (keeps_rtn t r)
  | orderTrack t => exact ha.onInstr (hv' _ rfl) (keeps_orderTrack t)
  | tickPx h px => exact ha.onInstr (hv' h rfl) fun b => Keeps.onTickPx b px
  | switchDay => exact ha.onSwitchDay

end Volumes

section Records

variable {h k : Hash} {m : ModInstr α} {q : ModPrd α}

/-- A product with a position has an instrument with one. -/
theorem exists_not_flat (ha : VolInv info a) (hq : a.mapPrd.find k = some q)
    (hf : ¬ q.unitVol.Flat) :
    ∃ h m, a.mapInstr.find h = some m ∧ m.pPrd = some (a.mapPrd.addr k) ∧ ¬ m.unitVol.Flat := by
  by_contra hcon
  push Not at hcon
  have hzero : ∀ φ : UnitVol →+ Int, (∀ m : ModInstr α, m.unitVol.Flat → φ m.unitVol = 0) →
      φ q.unitVol = 0 := by
    intro φ hφ
    have hr : q.unitVol = _ := ha.roll k q hq
    rw [hr, sum, UMap.map_total]
    apply UMap.total_zero
    intro h m hm
    unfold pointing
    split
    · exact hφ m (hcon h m hm ‹_›)
    · exact map_zero φ
  exact hf ⟨(hzero longVol fun m hm => hm.1.symm).symm, (hzero shortVol fun m hm => hm.2.symm).symm⟩

end Records

/-! ### The amounts of records without position -/

section Flat

variable {h k : Hash} {a : AccBase} {m : ModInstr} {q : ModPrd}

/-- The day roll of a unit without position is zero. -/
theorem flat_onSwitchDay (ha : Inv info a) (hm : a.mapInstr.find h = some m)
    (hf : m.unitVol.Flat) : m.onSwitchDay.unitAmt = 0 := by
  have h0 := contrib_flat (ha.amts h m hm) hf
  simp only [ModInstr.contrib, Prod.mk_eq_zero] at h0
  exact h0.2.1

/-- The instruments of a product without position have none. -/
theorem flat_of_product (ha : Inv info a) (hn : a.NoNegative) (hq : a.mapPrd.find k = some q)
    (hf : q.unitVol.Flat) (hm : a.mapInstr.find h = some m)
    (hp : m.pPrd = some (a.mapPrd.addr k)) : m.unitVol.Flat := by
  by_contra hne
  have hr := ha.roll k q hq
  obtain ⟨h', m', hm', -, hneg⟩ := exists_negative hm hp hne
    ⟨by rw [← hr]; exact hf.1.symm, by rw [← hr]; exact hf.2.symm⟩
  have := hn h' m' hm'
  omega

theorem flat_prd_onSwitchDay (ha : Inv info a) (hn : a.NoNegative) (hq : a.mapPrd.find k = some q)
    (hf : q.unitVol.Flat) :
    q.onSwitchDay.unitAmt = 0 := by
  have h0 : q.onSwitchDay.contrib = 0 := by
    rw [ModPrd.contrib_onSwitchDay, ha.roll k q hq, sum, UMap.map_total]
    apply UMap.total_zero
    intro h m hm
    unfold pointing
    split
    · rename_i hp
      rw [← ModInstr.contrib_onSwitchDay]
      exact contrib_flat (ha.amts h m hm) (flat_of_product ha hn hq hf hm hp)
    · exact map_zero _
  simp only [ModPrd.contrib, Prod.mk_eq_zero] at h0
  exact h0.2.1

end Flat

/-- What `from_json` has made of the saved account. -/
theorem exists_fromJson [CutOff α] [IntCast α] (hw : WF info a) (hv : info.VolMultiplesOk) :
    ∃ b, fromJson info a.toJson {} = some b ∧ b.modAcc = a.modAcc.onSwitchDay ∧
      (∀ h, (b.mapInstr.find h).isSome → h ∈ a.savedInstrs.map Sigma.fst) ∧
      (∀ e ∈ a.savedInstrs, ∃ p, b.mapInstr.find e.1 = some { e.2.onSwitchDay with pPrd := some p }) ∧
      (∀ e ∈ a.savedPrds, ∃ name, b.mapPrd.find e.1 = some { e.2.onSwitchDay with prdName := name } ∧
        ∀ e' ∈ a.savedInstrs, ∀ i, info.find e'.1 = some i → i.productHash = e.1 → name = i.product) ∧
      ∀ k q, k ∉ a.savedPrds.map Sigma.fst → b.mapPrd.find k = some q → ∃ i, q = freshPrd i := by
  have hstart : Loaded info [] { modAcc := a.modAcc.onSwitchDay } := by
    refine ⟨fun e he => (by cases he), fun h hx => (by cases hx), fun k q hq => (by cases hq),
      fun e he => (by cases he)⟩
  obtain ⟨b1, h1, hb1, hacc1⟩ := hstart.loadInstrs hw hv
    (fun e he => (mem_savedInstrs.mp he).1) a.nodup_savedInstrs
  have hname : ∀ e ∈ a.savedPrds, info.nameHash e.2.prdName = e.1 := by
    intro e he
    obtain ⟨h, i, hf, hk, hn⟩ := hw.prd e.1 e.2 (mem_savedPrds.mp he).1
    rw [hn, TradeBaseInfo.nameHash_product hf, hk]
  obtain ⟨b, h2, hinstr, hacc2, hmem, hother⟩ := loadPrds hname a.nodup_savedPrds b1
  refine ⟨b, ?_, hacc2.trans hacc1, ?_, ?_, ?_, ?_⟩
  · have hget : ModAcc.fromJson (a.toJson.get "mod_acc") = some a.modAcc.onSwitchDay := rfl
    simp only [fromJson, hget, Option.bind_eq_bind, Option.bind_some, members_instr hw,
      members_prd hw, h1, h2]
  · rw [hinstr]
    exact hb1.only
  · rw [hinstr]
    exact hb1.instr
  · intro e he
    refine ⟨_, hmem e he, ?_⟩
    intro e' he' i hf hk
    obtain ⟨q, hq⟩ := Option.isSome_iff_exists.mp (hb1.prd e' he' i hf)
    obtain ⟨h'', i'', hf'', hk'', rfl⟩ := hb1.fresh _ q hq
    rw [← hk, prdAt, hq]
    exact info.product_inj _ _ _ _ hf'' hf hk''
  · intro k q hk hq
    rw [hother k hk] at hq
    obtain ⟨h, i, -, -, hq'⟩ := hb1.fresh k q hq
    exact ⟨i, hq'⟩

/-- The two ways agree but for the amounts of records without position. -/
theorem VolInv.sameRecords [CutOff α] [IntCast α] (ha : VolInv info a) (hv : info.VolMultiplesOk) :
    ∃ b, fromJson info a.toJson {} = some b ∧ SameRecords a a.onSwitchDay b := by
  obtain ⟨b, hb, hacc, hiOnly, hiMem, hpMem, hpFresh⟩ := exists_fromJson ha.toWF hv
  refine ⟨b, hb, ?_, ?_, hacc.symm, ?_, ?_⟩
  · intro h m hm hne
    obtain ⟨p, hp⟩ := hiMem ⟨h, m⟩ (mem_savedInstrs.mpr ⟨hm, UnitVol.saved_of_not_flat hne⟩)
    exact ⟨_, _, switchDay_instr_kept hm hne, hp, rfl⟩
  · intro k q hq hne
    obtain ⟨name, hname, hprod⟩ := hpMem ⟨k, q⟩
      (mem_savedPrds.mpr ⟨hq, UnitVol.saved_of_not_flat hne⟩)
    obtain ⟨h, m, hm, hp, hmne⟩ := exists_not_flat ha hq hne
    obtain ⟨i, p, he⟩ := ha.instr h m hm
    have hk : i.productHash = k := by
      rw [he.pPrd, Option.some.injEq] at hp
      rw [← he.key, hp]
      rfl
    have hname' := hprod ⟨h, m⟩ (mem_savedInstrs.mpr ⟨hm, UnitVol.saved_of_not_flat hmne⟩) i
      he.known hk
    obtain ⟨h', i', hf', hk', hn'⟩ := ha.prd k q hq
    have heq : name = q.prdName := by
      rw [hname', hn']
      exact info.product_inj _ _ _ _ he.known hf' (hk.trans hk'.symm)
    refine ⟨q.onSwitchDay, ?_, ?_⟩
    · rw [switchDay_prd, hq, Option.bind_some]
      exact if_neg hne
    · rw [hname, heq]
      rfl
  · intro h hflat m hm
    rcases hm with hm | hm
    · obtain ⟨m0, hm0, hne, -⟩ := switchDay_instr_some hm
      exact absurd (hflat m0 hm0) hne
    · obtain ⟨e, he, rfl⟩ := List.mem_map.mp (hiOnly h (by rw [hm]; rfl))
      have hfind := (mem_savedInstrs.mp he).1
      obtain ⟨p, hp⟩ := hiMem e he
      obtain rfl : { e.2.onSwitchDay with pPrd := some p } = m := by
        rw [hm] at hp
        simpa using hp.symm
      exact ⟨rollVol_flat (hflat e.2 hfind), rfl⟩
  · intro k hflat q hq
    rcases hq with hq | hq
    · obtain ⟨q0, hq0, hne, -⟩ := switchDay_prd_some hq
      exact absurd (hflat q0 hq0) hne
    · by_cases hk : k ∈ a.savedPrds.map Sigma.fst
      · obtain ⟨e, he, rfl⟩ := List.mem_map.mp hk
        have hfind := (mem_savedPrds.mp he).1
        obtain ⟨name, hname, -⟩ := hpMem e he
        obtain rfl : { e.2.onSwitchDay with prdName := name } = q := by
          rw [hq] at hname
          simpa using hname.symm
        exact ⟨rollVol_flat (hflat e.2 hfind), rfl⟩
      · obtain ⟨i, rfl⟩ := hpFresh k q hk hq
        exact ⟨rfl, rfl⟩

/-- In exact arithmetic a record without position has no amount left. -/
theorem Inv.flatAmts {a : AccBase} (ha : Inv info a) (hv : info.VolMultiplesOk) (hn : a.NoNegative)
    {b : AccBase} (hb : fromJson info a.toJson {} = some b) : FlatAmts a a.onSwitchDay b := by
  obtain ⟨b', hb', -, hiOnly, hiMem, hpMem, hpFresh⟩ := exists_fromJson ha.toWF hv
  obtain rfl : b' = b := Option.some.inj (hb'.symm.trans hb)
  constructor
  · intro h hflat m hm
    rcases hm with hm | hm
    · obtain ⟨m0, hm0, hne, -⟩ := switchDay_instr_some hm
      exact absurd (hflat m0 hm0) hne
    · obtain ⟨e, he, rfl⟩ := List.mem_map.mp (hiOnly h (by rw [hm]; rfl))
      have hfind := (mem_savedInstrs.mp he).1
      obtain ⟨p, hp⟩ := hiMem e he
      obtain rfl : { e.2.onSwitchDay with pPrd := some p } = m := by
        rw [hm] at hp
        simpa using hp.symm
      exact flat_onSwitchDay ha hfind (hflat e.2 hfind)
  · intro k hflat q hq
    rcases hq with hq | hq
    · obtain ⟨q0, hq0, hne, -⟩ := switchDay_prd_some hq
      exact absurd (hflat q0 hq0) hne
    · by_cases hk : k ∈ a.savedPrds.map Sigma.fst
      · obtain ⟨e, he, rfl⟩ := List.mem_map.mp hk
        have hfind := (mem_savedPrds.mp he).1
        obtain ⟨name, hname, -⟩ := hpMem e he
        obtain rfl : { e.2.onSwitchDay with prdName := name } = q := by
          rw [hq] at hname
          simpa using hname.symm
        exact flat_prd_onSwitchDay ha hn hfind (hflat e.2 hfind)
      · obtain ⟨i, rfl⟩ := hpFresh k q hk hq
        rfl

end AccBase

open AccBase

/-- Runs of operations from an empty account, whatever the fills are. -/
def AccEvent.anySys (α : Type) [OfNat α 0] [OfNat α 1] [Add α] [Sub α] [Mul α] [Div α] [Neg α]
    [IntCast α] [DecidableEq α] (info : TradeBaseInfo) : Lib.Sys (AccBase α) (AccEvent α) where
  start a := a = {}
  ok _ _ := True
  next a e := e.apply info a

/-- **Both ways into the next day agree.** An account that any run of operations
has reached, saved and loaded into a fresh account, is the account after its own
day roll: the same records for every non-zero position, the same summary, no
volume and no pnl elsewhere, in whatever numbers the amounts are. In exact
arithmetic and without negative positions there is no amount elsewhere either. -/
theorem dayRoll_of_reachable {info : TradeBaseInfo} (hv : info.VolMultiplesOk) :
    (∀ (α : Type) [OfNat α 0] [OfNat α 1] [Add α] [Sub α] [Mul α] [Div α] [Neg α] [IntCast α]
      [DecidableEq α] [CutOff α] (a : AccBase α), (AccEvent.anySys α info).Reachable a →
        ∃ b, AccBase.fromJson info a.toJson {} = some b ∧ SameRecords a a.onSwitchDay b) ∧
    ∀ a : AccBase, (AccEvent.anySys ℚ info).Reachable a → a.NoNegative →
      ∃ b, AccBase.fromJson info a.toJson {} = some b ∧ SameRecords a a.onSwitchDay b ∧
        FlatAmts a a.onSwitchDay b := by
  have hrec : ∀ (α : Type) [OfNat α 0] [OfNat α 1] [Add α] [Sub α] [Mul α] [Div α] [Neg α]
      [IntCast α] [DecidableEq α] [CutOff α] (a : AccBase α), (AccEvent.anySys α info).Reachable a →
        ∃ b, AccBase.fromJson info a.toJson {} = some b ∧ SameRecords a a.onSwitchDay b := by
    intro α _ _ _ _ _ _ _ _ _ _ a ha
    have hinv : AccBase.VolInv info a := by
      refine (AccEvent.anySys α info).invariant (I := AccBase.VolInv info) ?_
        (fun a e h _ => volInv_apply (e.multipleOk hv) h) ha
      rintro a rfl
      exact volInv_empty
    exact hinv.sameRecords hv
  refine ⟨hrec, fun a ha hn => ?_⟩
  have hinv : AccBase.Inv info a := by
    refine (AccEvent.anySys ℚ info).invariant (I := AccBase.Inv info) ?_
      (fun a e h _ => inv_apply (e.multipleOk hv) h) ha
    rintro a rfl
    exact inv_empty
  obtain ⟨b, hb, hsame⟩ := hrec ℚ a ha
  exact ⟨b, hb, hsame, hinv.flatAmts hv hn hb⟩

/-- A position of 2, an order pending on a contract without one, and a
registered contract that nothing has happened to. -/
theorem dayRoll_rb :
    let a := (AccEvent.anySys ℚ TradeBaseInfo.rb).exec {}
      [.new .buy .opn 10 2 1,
        .rtn { instrHash := 1, dir := .buy, off := .opn, price := 10, vol := 2, volTraded := 2 }
          { msgType := ods .execution, price := 10, vol := 2 },
        .new .sell .opn 9 1 2, .tickPx 1 12]
    ∃ b, AccBase.fromJson TradeBaseInfo.rb a.toJson {} = some b ∧ SameRecords a a.onSwitchDay b ∧
      FlatAmts a a.onSwitchDay b := by
  refine (dayRoll_of_reachable TradeBaseInfo.rb_volMultiplesOk).2 _ ⟨{}, _, rfl, ?_, rfl⟩ ?_
  · exact ⟨trivial, trivial, trivial, trivial, trivial⟩
  have hall : ∀ e ∈ ((AccEvent.anySys ℚ TradeBaseInfo.rb).exec {}
      [.new .buy .opn 10 2 1,
        .rtn { instrHash := 1, dir := .buy, off := .opn, price := 10, vol := 2, volTraded := 2 }
          { msgType := ods .execution, price := 10, vol := 2 },
        .new .sell .opn 9 1 2, .tickPx 1 12]).mapInstr.nodes.entries,
      0 ≤ e.2.unitVol.posLong ∧ 0 ≤ e.2.unitVol.posShort := by
    decide +kernel
  exact fun h m hm => hall ⟨h, m⟩ (AList.mem_lookup_iff.mp hm)

/-- Three bought at 0.1 yesterday and sold today by fills of one and two at 0.1,
in `double`: the amounts do not add up to zero. -/
def rbDust : AccBase Float :=
  (AccEvent.anySys Float TradeBaseInfo.rb).exec {}
    [.new .buy .opn 0.1 3 1,
      .rtn { instrHash := 1, dir := .buy, off := .opn, price := 0.1, vol := 3, volTraded := 3 }
        { msgType := ods .execution, price := 0.1, vol := 3 },
      .switchDay, .new .sell .closeYesterday 0.1 3 1,
      .rtn { instrHash := 1, dir := .sell, off := .closeYesterday, price := 0.1, vol := 3, volTraded := 1 }
        { msgType := ods .execution, price := 0.1, vol := 1 },
      .rtn { instrHash := 1, dir := .sell, off := .closeYesterday, price := 0.1, vol := 3, volTraded := 3 }
        { msgType := ods .execution, price := 0.1, vol := 2 }]

/-- The roll of the live account drops the dust with its record, loading keeps it. -/
theorem not_dayRoll :
    (AccEvent.anySys Float TradeBaseInfo.rb).Reachable rbDust ∧ rbDust.NoNegative ∧
      ¬ ∃ b, AccBase.fromJson TradeBaseInfo.rb rbDust.toJson {} = some b ∧
        FlatAmts rbDust rbDust.onSwitchDay b := by
  refine ⟨⟨{}, _, rfl, ?_, rfl⟩, fun h m hm => ?_, ?_⟩
  · exact ⟨trivial, trivial, trivial, trivial, trivial, trivial, trivial⟩
  · have hall : ∀ e ∈ rbDust.mapInstr.nodes.entries,
        0 ≤ e.2.unitVol.posLong ∧ 0 ≤ e.2.unitVol.posShort := by decide +kernel
    exact hall ⟨h, m⟩ (AList.mem_lookup_iff.mp hm)
  · rintro ⟨b, hb, hflat⟩
    have hdust : ∃ m, b.mapInstr.find 1 = some m ∧ m.unitAmt.amtLong ≠ 0 := by
      have hx : ((AccBase.fromJson TradeBaseInfo.rb rbDust.toJson {}).bind
          (·.mapInstr.find 1)).any fun m => decide (m.unitAmt.amtLong ≠ 0) := by decide +kernel
      rw [hb, Option.bind_some, Option.any_eq_true] at hx
      obtain ⟨m, hm, hne⟩ := hx
      exact ⟨m, hm, of_decide_eq_true hne⟩
    obtain ⟨m, hm, hne⟩ := hdust
    refine hne (congrArg UnitAmt.amtLong (hflat.instr 1 ?_ m (Or.inr hm)))
    have hall : ∀ e ∈ rbDust.mapInstr.nodes.entries,
        0 = e.2.unitVol.posLong ∧ 0 = e.2.unitVol.posShort := by decide +kernel
    exact fun m' hm' => hall ⟨1, m'⟩ (AList.mem_lookup_iff.mp hm')

end NatFramework.Account
