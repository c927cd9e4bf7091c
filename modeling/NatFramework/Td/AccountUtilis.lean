import NatFramework.Account.Replay
import NatFramework.Td.RiskGate

/-!
# The accounts of one engine

An engine keeps a risk account for each of its trading accounts. While it runs,
orders and returns reach the account whose index they carry; at a restart
`initAccountUtilis` hands every track to every account, whatever its `acc_id`.

* `restarted_iff`: after a restart an account is what the tracks of its own
  orders make of the loaded one exactly when the tracks of the others leave no
  trace in it.
* `separate_iff`: all accounts of the engine.
-/
namespace NatFramework.Td

open Lib Account Risk AccBase Posting

variable {τ : Type} (O : Treap τ) (info : TradeBaseInfo)

/-! ## At a restart -/

/-- `get_request_track(i)` for `i` from `request_id_start_` below `request_id_`. -/
def Engine.usedTracks (e : Engine) : List OrderTrack :=
  (List.range (e.requestId - e.requestIdStart).toNat).map fun k =>
    e.getRequestTrack (e.requestIdStart + k)

/-- The body of step 2.5, for an entry of `instr_info_`. -/
def regListed (kv : Sigma fun _ : Hash => InstrumentInfo) (s : RiskTop τ) : Option (RiskTop τ) :=
  match s.regInstr O info kv.2.instr with
  | (s, some true) => some s
  | _ => none

/-- Steps 2.1 to 2.5 for one account; `loaded` is what `load` makes of the
account's file, `none` when it cannot be read. There is no account when a step
fails or ends the process.
mirrors td/ITDEngine.cpp:113-151 and risk/RiskTop.cpp:16-31 -/
def initAccount (conf : RiskConf) (loaded : Option AccBase) (tracks : List OrderTrack) :
    Option (RiskTop τ) :=
  match RiskAcc.init conf {} with
  | (riskAcc, some true) =>
    match loaded with
    | none => none
    | some accBase =>
      let s : RiskTop τ := { jConf := conf, riskAcc, accBase }
      let s := tracks.foldl (fun s t => s.onOrderTrack info t) s
      info.instrInfo.entries.foldlM (fun s kv => regListed O info kv s) s
  | _ => none

/-- `confs` are the configuration and the loaded account of each trading account.
mirrors td/ITDEngine.cpp:103-154 -/
def Engine.initAccountUtilis (confs : List (RiskConf × Option AccBase)) (e : Engine) :
    Option (List (RiskTop τ)) :=
  confs.mapM fun c => initAccount O info c.1 c.2 e.usedTracks

/-! ## The records do not depend on the tracks -/

section Records

variable {O info} {s : RiskTop τ} {ab : AccBase}

/-- The record of a product depends on the account by the address of its volumes. -/
theorem regRiskPrd_withAcc (name : String)
    (h : ab.mapPrd.addr (info.nameHash name) = s.accBase.mapPrd.addr (info.nameHash name)) :
    RiskTop.regRiskPrd info name { s with accBase := ab } =
      ({ (s.regRiskPrd info name).1 with accBase := ab }, (s.regRiskPrd info name).2) := by
  have hinit : ∀ r : RiskPrd, r.init s.jConf info name ab = r.init s.jConf info name s.accBase := by
    intro r
    unfold RiskPrd.init
    rw [h]
  unfold RiskTop.regRiskPrd
  dsimp only
  by_cases hx : s.isExistRiskPrd (info.nameHash name) = true
  · rw [if_pos hx, if_pos (by exact hx)]
  · rw [if_neg hx, if_neg (by exact hx)]
    simp only [RiskTop.riskPrdAt, hinit]

theorem regRiskInstr_withAcc {h : Hash} {i : InstrumentInfo} (hi : info.find h = some i)
    (ha : ab.mapInstr.addr h = s.accBase.mapInstr.addr h) :
    RiskTop.regRiskInstr O info i.instr { s with accBase := ab } =
      ({ (s.regRiskInstr O info i.instr).1 with accBase := ab },
        (s.regRiskInstr O info i.instr).2) := by
  have hinit : ∀ r : RiskInstr, r.init s.jConf info i ab = r.init s.jConf info i s.accBase := by
    intro r
    unfold RiskInstr.init
    rw [TradeBaseInfo.instrHash_eq hi, ha]
  unfold RiskTop.regRiskInstr
  rw [TradeBaseInfo.nameHash_instr hi]
  dsimp only
  by_cases hx : s.isExistRiskInstr h = true
  · rw [if_pos hx, if_pos (by exact hx)]
  · rw [if_neg hx, if_neg (by exact hx)]
    simp only [RiskTop.riskInstrAt, hi, hinit]

theorem regInstr_withAcc (hv : info.VolMultiplesOk) {h : Hash} {i : InstrumentInfo}
    (hi : info.find h = some i) (hinstr : ab.mapInstr.gen = s.accBase.mapInstr.gen)
    (hprd : ab.mapPrd.gen = s.accBase.mapPrd.gen) :
    RiskTop.regInstr O info i.instr { s with accBase := ab } =
      ({ (s.regInstr O info i.instr).1 with accBase := ab.reg i.instr h i },
        (s.regInstr O info i.instr).2) := by
  have hreg : ∀ a : AccBase, a.regInstr info i.instr = (a.reg i.instr h i, true) :=
    fun a => regInstr_eq (a := a) (TradeBaseInfo.nameHash_instr hi) hi (hv h i hi)
  have hp : (ab.reg i.instr h i).mapPrd.addr (info.nameHash i.product) =
      (s.accBase.reg i.instr h i).mapPrd.addr (info.nameHash i.product) := by
    simp [NodeMap.addr, hprd]
  have hm : (ab.reg i.instr h i).mapInstr.addr h = (s.accBase.reg i.instr h i).mapInstr.addr h := by
    simp [NodeMap.addr, hinstr]
  have hs := regRiskPrd_withAcc (s := { s with accBase := s.accBase.reg i.instr h i }) i.product hp
  rw [RiskTop.regInstr_eq (TradeBaseInfo.nameHash_instr hi) hi,
    RiskTop.regInstr_eq (TradeBaseInfo.nameHash_instr hi) hi, hreg, hreg]
  dsimp only at hs ⊢
  rw [hs]
  rcases hs1 : RiskTop.regRiskPrd info i.product { s with accBase := s.accBase.reg i.instr h i } with
    ⟨s1, _ | _ | _⟩
  · rfl
  · rfl
  · have hacc : s1.accBase = s.accBase.reg i.instr h i := by
      obtain ⟨m, rfl, -⟩ := RiskTop.regRiskPrd_true (TradeBaseInfo.nameHash_product hi) hs1
      rfl
    exact regRiskInstr_withAcc hi (by rw [hacc]; exact hm)

theorem accBase_regInstr (hv : info.VolMultiplesOk) {h : Hash} {i : InstrumentInfo}
    (hi : info.find h = some i) :
    (s.regInstr O info i.instr).1.accBase = s.accBase.reg i.instr h i := by
  have hs := regInstr_withAcc (O := O) (s := s) hv hi rfl rfl
  exact congrArg (fun r => r.1.accBase) hs

/-- Step 2.5 on the account alone. -/
def regAll (es : List (Sigma fun _ : Hash => InstrumentInfo)) (a : AccBase) : AccBase :=
  es.foldl (fun a e => a.reg e.2.instr e.1 e.2) a

/-- Step 2.5 makes the same records whatever the account has booked. -/
theorem foldlM_regListed (hv : info.VolMultiplesOk)
    (es : List (Sigma fun _ : Hash => InstrumentInfo)) (hes : ∀ e ∈ es, info.find e.1 = some e.2)
    (s : RiskTop τ) (ab : AccBase) (hinstr : ab.mapInstr.gen = s.accBase.mapInstr.gen)
    (hprd : ab.mapPrd.gen = s.accBase.mapPrd.gen) :
    es.foldlM (fun s kv => regListed O info kv s) { s with accBase := ab } =
      (es.foldlM (fun s kv => regListed O info kv s) s).map
        fun r => { r with accBase := regAll es ab } := by
  induction es generalizing s ab with
  | nil => rfl
  | cons e es ih =>
    have hi := hes e List.mem_cons_self
    have hacc := accBase_regInstr (O := O) (s := s) hv hi
    simp only [List.foldlM_cons, regListed]
    rw [regInstr_withAcc (O := O) hv hi hinstr hprd]
    rcases hs : s.regInstr O info e.2.instr with ⟨s1, _ | _ | _⟩
    · rfl
    · rfl
    · rw [hs] at hacc
      dsimp only [Option.bind_eq_bind, Option.bind_some] at hacc ⊢
      exact ih (fun e' he' => hes e' (List.mem_cons_of_mem e he')) s1 _ (by simp [hacc, hinstr])
        (by simp [hacc, hprd])

theorem gen_replay (hv : info.VolMultiplesOk) (ts : List OrderTrack) {a : AccBase}
    (hl : Linked info a) : (replay info ts a).mapInstr.gen = a.mapInstr.gen ∧
      (replay info ts a).mapPrd.gen = a.mapPrd.gen := by
  induction ts generalizing a with
  | nil => exact ⟨rfl, rfl⟩
  | cons t ts ih =>
    have haddr := fun k => hl.onInstr_addr hv t.instrHash k (orderTrackBooks t)
    obtain ⟨h1, h2⟩ := ih (a := a.onOrderTrack info t) (hl.onInstr hv (keeps_orderTrack t))
    refine ⟨h1.trans (funext fun k => ?_), h2.trans (funext fun k => ?_)⟩
    · exact (Ptr.mk.inj (haddr k).1).2
    · exact (Ptr.mk.inj (haddr k).2).2

theorem accBase_onOrderTracks (ts : List OrderTrack) (s : RiskTop τ) :
    ts.foldl (fun s t => s.onOrderTrack info t) s =
      { s with accBase := replay info ts s.accBase } := by
  induction ts generalizing s with
  | nil => rfl
  | cons t ts ih => exact ih _

/-- The tracks are booked on the account, and on nothing else. -/
theorem initAccount_eq (hv : info.VolMultiplesOk) (conf : RiskConf) {a0 : AccBase}
    (hl : Linked info a0) (ts : List OrderTrack) :
    initAccount O info conf (some a0) ts = (initAccount O info conf (some a0) []).map
      fun s => { s with accBase := regAll info.instrInfo.entries (replay info ts a0) } := by
  unfold initAccount
  rcases RiskAcc.init conf {} with ⟨riskAcc, _ | _ | _⟩
  · rfl
  · rfl
  · obtain ⟨h1, h2⟩ := gen_replay hv ts hl
    dsimp only
    rw [accBase_onOrderTracks]
    exact foldlM_regListed hv _ (fun e he => AList.mem_lookup_iff.mpr he)
      { jConf := conf, riskAcc, accBase := a0 } _ h1 h2

theorem booked_regAll {a0 a : AccBase} {l : List Posting}
    (es : List (Sigma fun _ : Hash => InstrumentInfo)) (hes : ∀ e ∈ es, info.find e.1 = some e.2)
    (hb : Booked info a0 l a) :
    Booked info a0 (l ++ es.map fun e => (e.1, 0)) (regAll es a) := by
  induction es generalizing a l with
  | nil => simpa [regAll] using hb
  | cons e es ih =>
    have h := ih (fun e' he' => hes e' (List.mem_cons_of_mem e he')) (hb.reg (hes e List.mem_cons_self))
    rw [List.append_assoc] at h
    exact h

theorem instr_regAll {a : AccBase} (es : List (Sigma fun _ : Hash => InstrumentInfo)) {h : Hash}
    {i : InstrumentInfo} (hi : info.find h = some i) (hes : ∀ e ∈ es, info.find e.1 = some e.2) :
    ((regAll es a).booksAt h i).instr = (a.booksAt h i).instr := by
  induction es generalizing a with
  | nil => rfl
  | cons e es ih =>
    refine (ih fun e' he' => hes e' (List.mem_cons_of_mem e he')).trans ?_
    unfold booksAt
    rw [reg_find]
    split
    · rename_i hh
      subst hh
      obtain rfl : i = e.2 := by
        have := hes e List.mem_cons_self
        rw [hi] at this
        simpa using this
      rfl
    · simp [NodeMap.addr]

theorem gen_regAll (es : List (Sigma fun _ : Hash => InstrumentInfo)) (a : AccBase) :
    (regAll es a).mapInstr.gen = a.mapInstr.gen ∧ (regAll es a).mapPrd.gen = a.mapPrd.gen := by
  induction es generalizing a with
  | nil => exact ⟨rfl, rfl⟩
  | cons e es ih =>
    obtain ⟨h1, h2⟩ := ih (a.reg e.2.instr e.1 e.2)
    exact ⟨h1.trans (by simp), h2.trans (by simp)⟩

end Records

/-! ## The tracks of the other accounts -/

def ownTracks (i : Nat) (ts : List OrderTrack) : List OrderTrack := ts.filter fun t => t.accId = i

def otherTracks (i : Nat) (ts : List OrderTrack) : List OrderTrack :=
  ts.filter fun t => ¬t.accId = i

/-- Two risk accounts with the same contents. -/
structure SameTop (s s' : RiskTop τ) : Prop where
  jConf : s.jConf = s'.jConf
  mapRiskInstr : s.mapRiskInstr = s'.mapRiskInstr
  mapRiskPrd : s.mapRiskPrd = s'.mapRiskPrd
  riskAcc : s.riskAcc = s'.riskAcc
  accBase : Same s.accBase s'.accBase

/-- The tracks of the other accounts leave no trace in account `i`: their effects
add up to zero on every instrument, a purchase among them comes with an average
that is right or taken anyway, and the last execution is one of the account's own. -/
structure NoTrace (info : TradeBaseInfo) (a0 : AccBase) (i : Nat) (ts : List OrderTrack) : Prop where
  unfilled : unfilled (postings info (otherTracks i ts)) = 0
  vol : ∀ h j, info.find h = some j → (sumAt h (postings info (otherTracks i ts))).vol = 0
  amt : ∀ h j, info.find h = some j → (sumAt h (postings info (otherTracks i ts))).amt = 0
  stray : ∀ h j, info.find h = some j → (sumAt h (postings info (otherTracks i ts))).stray = 0
  buys : ∀ h j, info.find h = some j → (sumAt h (postings info (otherTracks i ts))).buys = true →
    (sumAt h (postings info (ownTracks i ts))).buys = true ∨
      (a0.booksAt h j).instr.unitPx.avgPxBuy = UnitPx.calcAvgPx (a0.booksAt h j).instr.unitAmt.amtBuy
        (a0.booksAt h j).instr.unitVol.posBuy (a0.booksAt h j).instr.volMultiple
  sells : ∀ h j, info.find h = some j → (sumAt h (postings info (otherTracks i ts))).sells = true →
    (sumAt h (postings info (ownTracks i ts))).sells = true ∨
      (a0.booksAt h j).instr.unitPx.avgPxSell = UnitPx.calcAvgPx
        (a0.booksAt h j).instr.unitAmt.amtSell (a0.booksAt h j).instr.unitVol.posSell
        (a0.booksAt h j).instr.volMultiple
  lastPx : ∀ h j, info.find h = some j →
    lastPxOf h (a0.booksAt h j).instr.unitPx.lastPx ts =
      lastPxOf h (a0.booksAt h j).instr.unitPx.lastPx (ownTracks i ts)

section Traces

variable {info} {a0 : AccBase} {i : Nat} {ts : List OrderTrack}

theorem perm_tracks (i : Nat) (ts : List OrderTrack) :
    ts.Perm (ownTracks i ts ++ otherTracks i ts) := by
  have h := List.filter_append_perm (fun t : OrderTrack => decide (t.accId = i)) ts
  refine h.symm.trans (List.Perm.of_eq ?_)
  unfold ownTracks otherTracks
  congr 1
  apply List.filter_congr
  intro t _
  simp

theorem postings_append (ts ts' : List OrderTrack) :
    postings info (ts ++ ts') = postings info ts ++ postings info ts' := List.map_append

/-- What is posted is posted by the own tracks and by the others. -/
theorem sumAt_split (h : Hash) (i : Nat) (ts : List OrderTrack) :
    sumAt h (postings info ts) =
      sumAt h (postings info (ownTracks i ts)) + sumAt h (postings info (otherTracks i ts)) := by
  rw [← sumAt_append, ← postings_append]
  exact (Equiv.of_perm ((perm_tracks i ts).map _)).sumAt h

theorem unfilled_split (i : Nat) (ts : List OrderTrack) :
    unfilled (postings info ts) =
      unfilled (postings info (ownTracks i ts)) + unfilled (postings info (otherTracks i ts)) := by
  rw [← unfilled_append, ← postings_append]
  exact (Equiv.of_perm ((perm_tracks i ts).map _)).unfilled

/-- An effect added without being noticed. -/
theorem alike_add_iff (m : ModInstr) (e d : Effect) :
    (e + d).Alike m e ↔ d.vol = 0 ∧ d.amt = 0 ∧ d.stray = 0 ∧
      (d.buys = true → e.buys = true ∨
        m.unitPx.avgPxBuy = UnitPx.calcAvgPx m.unitAmt.amtBuy m.unitVol.posBuy m.volMultiple) ∧
      (d.sells = true → e.sells = true ∨
        m.unitPx.avgPxSell = UnitPx.calcAvgPx m.unitAmt.amtSell m.unitVol.posSell m.volMultiple) := by
  constructor
  · rintro ⟨h1, h2, h3, h4, h5⟩
    refine ⟨add_eq_left.mp h1, add_eq_left.mp h2, add_eq_left.mp h3, fun hd => ?_, fun hd => ?_⟩
    · refine h4.imp (fun hb => ?_) id
      rw [Effect.add_buys, hd, Bool.or_true] at hb
      exact hb.symm
    · refine h5.imp (fun hb => ?_) id
      rw [Effect.add_sells, hd, Bool.or_true] at hb
      exact hb.symm
  · rintro ⟨h1, h2, h3, h4, h5⟩
    refine ⟨add_eq_left.mpr h1, add_eq_left.mpr h2, add_eq_left.mpr h3, ?_, ?_⟩
    · cases hd : d.buys
      · exact Or.inl (by rw [Effect.add_buys, hd, Bool.or_false])
      · exact (h4 hd).imp (fun hb => by rw [Effect.add_buys, hb, hd]; rfl) id
    · cases hd : d.sells
      · exact Or.inl (by rw [Effect.add_sells, hd, Bool.or_false])
      · exact (h5 hd).imp (fun hb => by rw [Effect.add_sells, hb, hd]; rfl) id

/-- What step 2.5 posts: nothing, on every instrument of the table. -/
def regPostings (info : TradeBaseInfo) : List Posting := info.instrInfo.entries.map fun e => (e.1, 0)

theorem sumAt_regPostings (info : TradeBaseInfo) (h : Hash) (l : List Posting) :
    sumAt h (l ++ regPostings info) = sumAt h l := by
  rw [sumAt_append, show sumAt h (regPostings info) = 0 by
    simp [sumAt, regPostings, Function.comp_def], add_zero]

theorem unfilled_regPostings (info : TradeBaseInfo) (l : List Posting) :
    unfilled (l ++ regPostings info) = unfilled l := by
  rw [unfilled_append, show unfilled (regPostings info) = 0 by
    simp [unfilled, regPostings, Function.comp_def], add_zero]

theorem touched_regPostings {h : Hash} {j : InstrumentInfo} (hj : info.find h = some j)
    (l : List Posting) : Touched h (l ++ regPostings info) := by
  rw [touched_append]
  exact Or.inr ⟨0, List.mem_map.mpr ⟨⟨h, j⟩, AList.mem_lookup_iff.mp hj, rfl⟩⟩

/-- The account that a restart makes of the tracks `ts`. -/
def rebuilt (info : TradeBaseInfo) (ts : List OrderTrack) (a0 : AccBase) : AccBase :=
  regAll info.instrInfo.entries (replay info ts a0)

theorem find_of_mem_entries : ∀ e ∈ info.instrInfo.entries, info.find e.1 = some e.2 :=
  fun _ he => AList.mem_lookup_iff.mpr he

theorem booked_rebuilt (hv : info.VolMultiplesOk) (hl : Linked info a0) (ts : List OrderTrack) :
    Booked info a0 (postings info ts ++ regPostings info) (rebuilt info ts a0) :=
  booked_regAll _ find_of_mem_entries (booked_replay hv ts (Booked.start hl))

theorem lastPx_rebuilt (hv : info.VolMultiplesOk) (hl : Linked info a0) (ts : List OrderTrack)
    {h : Hash} {j : InstrumentInfo} (hj : info.find h = some j) :
    ((rebuilt info ts a0).booksAt h j).instr.unitPx.lastPx =
      lastPxOf h (a0.booksAt h j).instr.unitPx.lastPx ts := by
  rw [rebuilt, instr_regAll _ hj find_of_mem_entries, lastPx_replay hv hj ts hl]

/-- Rebuilding erases no element of the maps. -/
theorem gen_rebuilt (hv : info.VolMultiplesOk) (hl : Linked info a0) (ts : List OrderTrack) :
    (rebuilt info ts a0).mapInstr.gen = a0.mapInstr.gen ∧
      (rebuilt info ts a0).mapPrd.gen = a0.mapPrd.gen := by
  obtain ⟨h1, h2⟩ := gen_regAll info.instrInfo.entries (replay info ts a0)
  obtain ⟨h3, h4⟩ := gen_replay hv ts hl
  exact ⟨h1.trans h3, h2.trans h4⟩

/-- The account rebuilt from all tracks is the one rebuilt from its own exactly
when the others leave no trace. -/
theorem same_iff_noTrace (hv : info.VolMultiplesOk) (hl : Linked info a0) (i : Nat)
    (ts : List OrderTrack) :
    Same (rebuilt info ts a0) (rebuilt info (ownTracks i ts) a0) ↔ NoTrace info a0 i ts := by
  rw [(booked_rebuilt hv hl ts).same_iff (booked_rebuilt hv hl (ownTracks i ts))
    fun h j hj => ⟨touched_regPostings hj _, touched_regPostings hj _⟩]
  simp only [sumAt_regPostings, unfilled_regPostings]
  rw [unfilled_split i ts, add_eq_left]
  constructor
  · rintro ⟨hu, hall⟩
    have halike := fun h j hj => (alike_add_iff _ _ _).mp (sumAt_split h i ts ▸ (hall h j hj).1)
    refine ⟨hu, fun h j hj => (halike h j hj).1, fun h j hj => (halike h j hj).2.1,
      fun h j hj => (halike h j hj).2.2.1, fun h j hj => (halike h j hj).2.2.2.1,
      fun h j hj => (halike h j hj).2.2.2.2, fun h j hj => ?_⟩
    rw [← lastPx_rebuilt hv hl _ hj, ← lastPx_rebuilt hv hl _ hj]
    exact (hall h j hj).2
  · intro hn
    refine ⟨hn.unfilled, fun h j hj => ⟨?_, ?_⟩⟩
    · rw [sumAt_split h i ts]
      exact (alike_add_iff _ _ _).mpr ⟨hn.vol h j hj, hn.amt h j hj, hn.stray h j hj,
        hn.buys h j hj, hn.sells h j hj⟩
    · rw [lastPx_rebuilt hv hl _ hj, lastPx_rebuilt hv hl _ hj]
      exact hn.lastPx h j hj

/-- One account after a restart. -/
theorem restarted_iff (hv : info.VolMultiplesOk) (hl : Linked info a0) (conf : RiskConf) (i : Nat)
    (ts : List OrderTrack) {s : RiskTop τ} (hs : initAccount O info conf (some a0) ts = some s) :
    (∃ s', initAccount O info conf (some a0) (ownTracks i ts) = some s' ∧ SameTop s s') ↔
      NoTrace info a0 i ts := by
  rw [initAccount_eq hv conf hl] at hs ⊢
  rw [← same_iff_noTrace hv hl]
  obtain ⟨r, hr, rfl⟩ := Option.map_eq_some_iff.mp hs
  simp only [hr, Option.map_some, Option.some.injEq, exists_eq_left']
  constructor
  · intro h
    exact h.accBase
  · intro h
    exact ⟨rfl, rfl, rfl, rfl, h⟩

end Traces

/-! ## The accounts of the engine -/

/-- Every account of `accs` is what the tracks of its own orders make of the
loaded one. -/
def Separate (O : Treap τ) (info : TradeBaseInfo) (confs : List (RiskConf × AccBase))
    (ts : List OrderTrack) (accs : List (RiskTop τ)) : Prop :=
  ∀ (i : Nat) (c : RiskConf × AccBase) (s : RiskTop τ), confs[i]? = some c → accs[i]? = some s →
    ∃ s', initAccount O info c.1 (some c.2) (ownTracks i ts) = some s' ∧ SameTop s s'

theorem getElem?_of_mapM {α β : Type} {f : α → Option β} {l : List α} {l' : List β}
    (h : l.mapM f = some l') {i : Nat} {x : α} (hx : l[i]? = some x) :
    ∃ y, f x = some y ∧ l'[i]? = some y := by
  induction l generalizing l' i with
  | nil => cases hx
  | cons z l ih =>
    simp only [List.mapM_cons, Option.bind_eq_bind, Option.pure_def, Option.bind_eq_some_iff,
      Option.some.injEq] at h
    obtain ⟨y, hy, l'', hl'', rfl⟩ := h
    cases i with
    | zero =>
      cases hx
      exact ⟨y, hy, rfl⟩
    | succ i => exact ih hl'' hx

/-- The accounts of an engine are separate after a restart exactly when in none of
them the tracks of the others leave a trace. -/
theorem separate_iff (O : Treap τ) {info : TradeBaseInfo} (hv : info.VolMultiplesOk) (e : Engine)
    (confs : List (RiskConf × AccBase)) (hl : ∀ c ∈ confs, Linked info c.2)
    {accs : List (RiskTop τ)}
    (hi : e.initAccountUtilis O info (confs.map fun c => (c.1, some c.2)) = some accs) :
    Separate O info confs e.usedTracks accs ↔
      ∀ (i : Nat) c, confs[i]? = some c → NoTrace info c.2 i e.usedTracks := by
  have hget : ∀ (i : Nat) (c : RiskConf × AccBase), confs[i]? = some c →
      ∃ s, initAccount O info c.1 (some c.2) e.usedTracks = some s ∧ accs[i]? = some s := by
    intro i c hc
    exact getElem?_of_mapM hi (i := i) (x := (c.1, some c.2)) (by simp [hc])
  constructor
  · intro hsep i c hc
    obtain ⟨s, hs, hacc⟩ := hget i c hc
    exact (restarted_iff O hv (hl c (List.mem_of_getElem? hc)) c.1 i _ hs).mp (hsep i c s hc hacc)
  · intro hno i c s hc hacc
    obtain ⟨s', hs, hacc'⟩ := hget i c hc
    rw [hacc] at hacc'
    cases hacc'
    exact (restarted_iff O hv (hl c (List.mem_of_getElem? hc)) c.1 i _ hs).mpr (hno i c hc)

/-- An order of the first of two accounts is working in the market. -/
def oneBuy : Engine :=
  Engine.setRequestTrack 1
    { status := ods .tdSend, instrHash := 1, instr := "rb1810", price := 10, vol := 2, dir := .buy
      off := .opn, from_ := 1, accId := 0, orderRef := 1 } { requestId := 2 }

def twoAccounts : List (RiskConf × AccBase) := [(Desk.rbConf, {}), (Desk.rbConf, {})]

theorem separate_oneBuy :
    let O := listOps TreapNode.orderRef TreapNode.priorityOrder
    ∃ accs, oneBuy.initAccountUtilis O .rb (twoAccounts.map fun c => (c.1, some c.2)) = some accs ∧
      (Separate O .rb twoAccounts oneBuy.usedTracks accs ↔
        ∀ (i : Nat) c, twoAccounts[i]? = some c → NoTrace .rb c.2 i oneBuy.usedTracks) := by
  obtain ⟨accs, h⟩ := Option.isSome_iff_exists.mp (show (oneBuy.initAccountUtilis
    (listOps TreapNode.orderRef TreapNode.priorityOrder) .rb
    (twoAccounts.map fun c => (c.1, some c.2))).isSome = true by decide +kernel)
  refine ⟨accs, h, separate_iff _ TradeBaseInfo.rb_volMultiplesOk oneBuy twoAccounts ?_ h⟩
  simp [twoAccounts, linked_empty]

/-- The order is pending in the second account, too. -/
theorem not_separate_oneBuy :
    let O := listOps TreapNode.orderRef TreapNode.priorityOrder
    ∃ accs, oneBuy.initAccountUtilis O .rb (twoAccounts.map fun c => (c.1, some c.2)) = some accs ∧
      ¬Separate O .rb twoAccounts oneBuy.usedTracks accs := by
  obtain ⟨accs, h⟩ := Option.isSome_iff_exists.mp (show (oneBuy.initAccountUtilis
    (listOps TreapNode.orderRef TreapNode.priorityOrder) .rb
    (twoAccounts.map fun c => (c.1, some c.2))).isSome = true by decide +kernel)
  refine ⟨accs, h, fun hsep => ?_⟩
  obtain ⟨s, hs, hacc⟩ := getElem?_of_mapM h (i := 1) (x := (Desk.rbConf, some {})) rfl
  have hno := (restarted_iff _ TradeBaseInfo.rb_volMultiplesOk linked_empty Desk.rbConf 1 _ hs).mp
    (hsep 1 _ s rfl hacc)
  exact absurd (hno.vol 1 TradeBaseInfo.rb1810 rfl) (by decide +kernel)

end NatFramework.Td
