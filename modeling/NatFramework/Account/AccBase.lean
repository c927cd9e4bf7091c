import NatFramework.Account.ModInstr

/-!
# The account

`account/AccBase`: instruments and products in two hash maps, the account
summary beside them. An instrument points at the product node of `map_prd_`;
`onSwitchDay` erases nodes of both maps, so that pointers carry a generation
(`Ptr`) and a pointer into an erased node designates nothing.

* A call through a null or dangling `p_prd` is undefined in the source. Here it
  leaves the account as it is; `RollUp` shows when it cannot happen.
* `regInstr_eq`: what registration does when `ModInstr::init` accepts the
  multiple, as `reg`.
* `Linked.onInstr_eq`: a callback is one event on the books of a registered
  instrument.
-/
namespace NatFramework.Account

open Lib

/-- mirrors account/AccBase.h:61-66 -/
structure AccBase (α : Type := ℚ) [OfNat α 0] where
  mapInstr : NodeMap Hash (ModInstr α) := {}
  mapPrd : NodeMap Hash (ModPrd α) := {}
  modAcc : ModAcc α := {}

namespace AccBase

variable {α : Type} [OfNat α 0]

variable (info : TradeBaseInfo)

/-! ## Registration -/

/-- mirrors account/AccBase.cpp:56-58 -/
def isExistModPrd (a : AccBase α) (prdHash : Hash) : Bool := (a.mapPrd.find prdHash).isSome

/-- mirrors account/AccBase.cpp:60-62 -/
def isExistModInstr (a : AccBase α) (instrHash : Hash) : Bool := (a.mapInstr.find instrHash).isSome

/-- What `map_prd_[prd_hash]` designates: a new node if there is none. -/
def prdAt (a : AccBase α) (prdHash : Hash) : ModPrd α := (a.mapPrd.find prdHash).getD {}

/-- The node that `map_prd_[prd_hash]` makes if there is none. -/
def touchPrd (prdHash : Hash) (a : AccBase α) : AccBase α :=
  if a.isExistModPrd prdHash then a else { a with mapPrd := a.mapPrd.set prdHash {} }

/-- What `map_instr_[instr_hash]` designates: a new node if there is none. -/
def instrAt (a : AccBase α) (instrHash : Hash) : ModInstr α := (a.mapInstr.find instrHash).getD {}

/-- `ModPrd::init` never fails, nor does this.
mirrors account/AccBase.cpp:64-74 -/
def regModPrd (prdName : String) (a : AccBase α) : AccBase α :=
  let prdHash := info.nameHash prdName
  if a.isExistModPrd prdHash then a
  else { a with mapPrd := a.mapPrd.set prdHash ((a.prdAt prdHash).init prdName) }

/-- A refused `init` leaves the new node behind, with null pointers.
mirrors account/AccBase.cpp:76-92 -/
def regModInstr (instrName : String) (a : AccBase α) : AccBase α × Bool :=
  let instrHash := info.nameHash instrName
  if a.isExistModInstr instrHash then (a, true)
  else
    match info.find instrHash with
    | none => (a, false)
    | some i =>
      match (a.instrAt instrHash).init instrName i.volMultiple with
      | none => ({ a with mapInstr := a.mapInstr.set instrHash (a.instrAt instrHash) }, false)
      | some m => ({ a with mapInstr := a.mapInstr.set instrHash m }, true)

/-- `map_instr_[instr_hash].p_prd = &map_prd_[prd_hash];`
`map_instr_[instr_hash].p_acc = &mod_acc_;` -/
def link (instrHash prdHash : Hash) (a : AccBase α) : AccBase α :=
  let a := a.touchPrd prdHash
  { a with
    mapInstr := a.mapInstr.set instrHash
      { a.instrAt instrHash with pPrd := some (a.mapPrd.addr prdHash), pAcc := true } }

/-- mirrors account/AccBase.cpp:22-54 -/
def regInstr (instrName : String) (a : AccBase α) : AccBase α × Bool :=
  let instrHash := info.nameHash instrName
  match info.find instrHash with
  | none => (a, false)
  | some i =>
    let a := if a.isExistModPrd i.productHash then a else a.regModPrd info i.product
    if a.isExistModInstr instrHash then (a, true)
    else
      match a.regModInstr info instrName with
      | (a, false) => (a, false)
      | (a, true) => (a.link instrHash i.productHash, true)

/-! ## Callbacks -/

/-- Runs an event of `map_instr_[instr_hash]` through its pointers. -/
def withBooks (instrHash : Hash) (f : Books α → Books α) (a : AccBase α) : AccBase α :=
  match a.mapInstr.find instrHash with
  | none => a
  | some m =>
    match m.pAcc, m.pPrd with
    | true, some p =>
      match a.mapPrd.deref p with
      | none => a
      | some prd =>
        let b := f ⟨m, prd, a.modAcc⟩
        { mapInstr := a.mapInstr.set instrHash b.instr
          mapPrd := a.mapPrd.set p.key b.prd
          modAcc := b.acc }
    | _, _ => a

/-- The head the four callbacks share: find the instrument, register it, take
its `ModInstr`. -/
def onInstr (instrHash : Hash) (f : Books α → Books α) (a : AccBase α) : AccBase α :=
  match info.find instrHash with
  | none => a
  | some i =>
    match a.regInstr info i.instr with
    | (a, false) => a
    | (a, true) => a.withBooks instrHash f

/-- The mask of `onRtn` that calls `onCxl`. -/
def cxlMask : Status := ods .reject ||| ods .marketReject ||| ods .canceled

/-- `onRtn` calls `onCxl` on the messages that close. -/
theorem hasAny_cxlMask {s : Status} (hs : s.FromTypes) : hasAny s cxlMask = s.has .closed := by
  obtain ⟨ts, rfl⟩ := hs
  induction ts with
  | nil => decide
  | cons t ts ih =>
    have ht : hasAny (ods t) cxlMask = Status.has (ods t) .closed := by cases t <;> decide
    simp only [List.map_cons, List.foldr_cons, Status.has, hasAny.or_left] at ih ht ⊢
    rw [ih, ht]

section Callbacks

variable [OfNat α 1] [Add α] [Sub α] [Mul α] [Div α] [Neg α] [IntCast α] [DecidableEq α]

/-- The part of `onOrderTrack` behind the head. -/
def orderTrackBooks (t : OrderTrack α) (b : Books α) : Books α :=
  let b := if hasAny t.status (ods .send ||| ods .tdSend) then b.onNew t.dir t.off t.price t.vol
    else b
  let b := if t.status.has .closed && t.vol != t.volTraded then
      b.onCxl t.dir t.off t.price (t.vol - t.volTraded)
    else b
  if t.status.has .execution then
    let trdPx := if 0 = t.volTraded then 0 else t.amountTraded / t.volTraded
    b.onTrd t.dir t.off t.price t.vol t.volTraded trdPx t.volTraded
  else b

/-- mirrors account/AccBase.cpp:300-347 -/
def onOrderTrack (t : OrderTrack α) (a : AccBase α) : AccBase α :=
  a.onInstr info t.instrHash (orderTrackBooks t)

/-- mirrors account/AccBase.cpp:349-364 -/
def onNew (dir : Dir) (off : Off) (px : α) (vol : Int) (instrHash : Hash) (a : AccBase α) : AccBase α :=
  a.onInstr info instrHash fun b => b.onNew dir off px vol

/-- The part of `onRtn` behind the head. -/
def rtnBooks (t : OrderTrack α) (r : RtnMsg α) (b : Books α) : Books α :=
  let b := if hasAny r.msgType cxlMask then b.onCxl t.dir t.off t.price r.vol else b
  if r.msgType.has .execution then b.onTrd t.dir t.off t.price t.vol t.volTraded r.price r.vol
  else b

/-- mirrors account/AccBase.cpp:366-398 -/
def onRtn (t : OrderTrack α) (r : RtnMsg α) (a : AccBase α) : AccBase α :=
  a.onInstr info t.instrHash (rtnBooks t r)

/-- mirrors account/AccBase.cpp:400-413 -/
def onTickPx (instrHash : Hash) (tickPx : α) (a : AccBase α) : AccBase α :=
  a.onInstr info instrHash fun b => b.onTickPx tickPx

/-- mirrors account/AccBase.cpp:210-243 -/
def onSwitchDay (a : AccBase α) : AccBase α where
  modAcc := a.modAcc.onSwitchDay
  mapPrd := a.mapPrd.sweep fun _ p =>
    if 0 = p.unitVol.posLong ∧ 0 = p.unitVol.posShort then none else some p.onSwitchDay
  mapInstr := a.mapInstr.sweep fun _ m =>
    if 0 = m.unitVol.posLong ∧ 0 = m.unitVol.posShort then none else some m.onSwitchDay

end Callbacks

/-! ## Registration in one step -/

/-- A product node as `regModPrd` makes it. -/
def freshPrd (i : InstrumentInfo) : ModPrd α := { prdName := i.product }

/-- An instrument node as `regInstr` makes it. -/
def freshInstr (name : String) (i : InstrumentInfo) (p : Ptr Hash) : ModInstr α :=
  { pPrd := some p, pAcc := true, instrName := name, volMultiple := i.volMultiple }

def regPrd (i : InstrumentInfo) (a : AccBase α) : AccBase α :=
  if a.isExistModPrd i.productHash then a
  else { a with mapPrd := a.mapPrd.set i.productHash (freshPrd i) }

/-- `regInstr` of a known instrument whose multiple `init` accepts. -/
def reg (name : String) (h : Hash) (i : InstrumentInfo) (a : AccBase α) : AccBase α :=
  let a := a.regPrd i
  if a.isExistModInstr h then a
  else { a with mapInstr := a.mapInstr.set h (freshInstr name i (a.mapPrd.addr i.productHash)) }

section Views

variable (name : String) (h : Hash) (i : InstrumentInfo) (a : AccBase α)

@[simp] theorem regPrd_mapInstr : (a.regPrd i).mapInstr = a.mapInstr := by
  unfold regPrd; split <;> rfl

@[simp] theorem regPrd_modAcc : (a.regPrd i).modAcc = a.modAcc := by
  unfold regPrd; split <;> rfl

@[simp] theorem regPrd_gen : (a.regPrd i).mapPrd.gen = a.mapPrd.gen := by
  unfold regPrd; split <;> rfl

theorem regPrd_find (k : Hash) :
    (a.regPrd i).mapPrd.find k =
      if k = i.productHash then some ((a.mapPrd.find k).getD (freshPrd i))
      else a.mapPrd.find k := by
  unfold regPrd isExistModPrd
  by_cases hk : k = i.productHash
  · subst hk
    cases hp : a.mapPrd.find i.productHash <;> simp [hp]
  · cases hp : a.mapPrd.find i.productHash <;> simp [hk]

@[simp] theorem reg_mapPrd : (a.reg name h i).mapPrd = (a.regPrd i).mapPrd := by
  unfold reg; simp only; split <;> rfl

@[simp] theorem reg_modAcc : (a.reg name h i).modAcc = a.modAcc := by
  unfold reg; simp only; split <;> simp

@[simp] theorem reg_mapInstr_gen : (a.reg name h i).mapInstr.gen = a.mapInstr.gen := by
  unfold reg; simp only; split <;> simp

theorem reg_find (h' : Hash) :
    (a.reg name h i).mapInstr.find h' =
      if h' = h then some ((a.mapInstr.find h).getD (freshInstr name i (a.mapPrd.addr i.productHash)))
      else a.mapInstr.find h' := by
  have haddr : (a.regPrd i).mapPrd.addr i.productHash = a.mapPrd.addr i.productHash := by
    simp [NodeMap.addr]
  unfold reg isExistModInstr
  by_cases hh : h' = h
  · subst hh
    cases hm : a.mapInstr.find h' <;> simp [hm, haddr]
  · cases hm : a.mapInstr.find h <;> simp [hm, hh]

end Views

variable {info} {a : AccBase α} {name : String} {h : Hash} {i : InstrumentInfo}

/-- Registration of an instrument the table knows and `ModInstr::init` accepts. -/
theorem regInstr_eq (hn : info.nameHash name = h) (hf : info.find h = some i)
    (hv : 0 ≤ i.volMultiple) : a.regInstr info name = (a.reg name h i, true) := by
  have hp := TradeBaseInfo.nameHash_product hf
  have hprd : (if a.isExistModPrd i.productHash then a else a.regModPrd info i.product) =
      a.regPrd i := by
    unfold regPrd
    split
    · rfl
    · rename_i hx
      have hnone : a.mapPrd.find i.productHash = none := by
        simpa [isExistModPrd] using hx
      simp only [regModPrd, hp, hx, prdAt, hnone]
      rfl
  simp only [regInstr, hn, hf, hprd]
  by_cases hx : (a.regPrd i).isExistModInstr h
  · simp only [reg, hx, if_true]
  · have hnone : a.mapInstr.find h = none := by
      simpa [isExistModInstr] using hx
    have hset : ∀ (n : NodeMap Hash (ModInstr α)) (x y : ModInstr α), (n.set h x).set h y = n.set h y := by
      intro n x y
      simp [NodeMap.set, AList.insert_insert]
    simp [reg, hx, regModInstr, hn, hf, instrAt, hnone, ModInstr.init, not_lt.mpr hv, link,
      touchPrd, isExistModPrd, regPrd_find, hset, freshInstr]

/-! ## Valid pointers -/

/-- The state after an event has run on the books of `h` and product `k`. -/
def put (h k : Hash) (b : Books α) (a : AccBase α) : AccBase α where
  mapInstr := a.mapInstr.set h b.instr
  mapPrd := a.mapPrd.set k b.prd
  modAcc := b.acc

theorem withBooks_eq {m : ModInstr α} {p : Ptr Hash} {q : ModPrd α} (f : Books α → Books α)
    (hm : a.mapInstr.find h = some m) (hacc : m.pAcc = true) (hp : m.pPrd = some p)
    (hd : a.mapPrd.deref p = some q) :
    a.withBooks h f = a.put h p.key (f ⟨m, q, a.modAcc⟩) := by
  simp [withBooks, put, hm, hacc, hp, hd]

theorem withBooks_detached {m : ModInstr α} {p : Ptr Hash} (f : Books α → Books α)
    (hm : a.mapInstr.find h = some m) (hp : m.pPrd = some p) (hd : a.mapPrd.deref p = none) :
    a.withBooks h f = a := by
  cases hacc : m.pAcc <;> simp [withBooks, hm, hacc, hp, hd]

/-- What registration leaves in the instrument under `h`. It stays true of an
instrument whose product node has been erased: then the generation of its
pointer is past. -/
structure Entry (info : TradeBaseInfo) (a : AccBase α) (h : Hash) (m : ModInstr α) (i : InstrumentInfo)
    (p : Ptr Hash) : Prop where
  known : info.find h = some i
  pAcc : m.pAcc = true
  instrName : info.nameHash m.instrName = h
  volMultiple : m.volMultiple = i.volMultiple
  pPrd : m.pPrd = some p
  key : p.key = i.productHash
  gen_le : p.gen ≤ a.mapPrd.gen p.key
  live : p.gen = a.mapPrd.gen p.key → (a.mapPrd.find p.key).isSome

/-- Every instrument and product in the maps has been registered. -/
structure WF (info : TradeBaseInfo) (a : AccBase α) : Prop where
  instr : ∀ h m, a.mapInstr.find h = some m → ∃ i p, Entry info a h m i p
  prd : ∀ k q, a.mapPrd.find k = some q →
    ∃ h i, info.find h = some i ∧ i.productHash = k ∧ q.prdName = i.product

/-- The product an instrument points at is still in the map. -/
def Attached (a : AccBase α) (m : ModInstr α) : Prop :=
  ∃ p, m.pPrd = some p ∧ (a.mapPrd.deref p).isSome

/-- Every instrument in the map points at a product in the map. -/
structure Linked (info : TradeBaseInfo) (a : AccBase α) : Prop extends WF info a where
  attached : ∀ h m, a.mapInstr.find h = some m → a.Attached m

variable {m : ModInstr α} {p : Ptr Hash}

theorem Entry.attached_iff (he : Entry info a h m i p) :
    a.Attached m ↔ p = a.mapPrd.addr i.productHash := by
  constructor
  · rintro ⟨p', hp', hd⟩
    rw [he.pPrd, Option.some.injEq] at hp'
    subst hp'
    obtain ⟨q, hq⟩ := Option.isSome_iff_exists.mp hd
    rw [← he.key]
    exact (NodeMap.eq_addr_of_deref hq).1
  · intro hp
    refine ⟨p, he.pPrd, ?_⟩
    have hg : p.gen = a.mapPrd.gen p.key := by rw [hp]; rfl
    simpa [NodeMap.deref, hg] using he.live hg

theorem linked_empty : Linked info ({} : AccBase α) := by
  constructor
  · constructor <;> intro _ _ hx <;> cases hx
  · intro _ _ hx; cases hx

/-! ### Registration keeps the pointers valid -/

theorem isSome_find_regPrd {k : Hash} (hk : (a.mapPrd.find k).isSome) :
    ((a.regPrd i).mapPrd.find k).isSome := by
  rw [regPrd_find]; split <;> simp [hk]

theorem entry_fresh (hn : info.nameHash name = h) (hf : info.find h = some i) :
    Entry info (a.reg name h i) h (freshInstr name i (a.mapPrd.addr i.productHash)) i
      (a.mapPrd.addr i.productHash) where
  known := hf
  pAcc := rfl
  instrName := hn
  volMultiple := rfl
  pPrd := rfl
  key := rfl
  gen_le := by simp [NodeMap.addr]
  live := by intro _; simp [regPrd_find, NodeMap.addr]

theorem Entry.reg {h' : Hash} {i' : InstrumentInfo} (he : Entry info a h m i p) :
    Entry info (a.reg name h' i') h m i p where
  known := he.known
  pAcc := he.pAcc
  instrName := he.instrName
  volMultiple := he.volMultiple
  pPrd := he.pPrd
  key := he.key
  gen_le := by simpa using he.gen_le
  live := by
    intro hg
    rw [reg_mapPrd] at hg ⊢
    exact isSome_find_regPrd (he.live (by simpa using hg))

theorem WF.reg (hw : WF info a) (hn : info.nameHash name = h) (hf : info.find h = some i) : WF info (a.reg name h i) where
  instr := by
    intro h' m' hm'
    rw [reg_find] at hm'
    split at hm'
    · rename_i hh
      subst hh
      cases hm : a.mapInstr.find h' with
      | none =>
        simp only [hm, Option.getD_none, Option.some.injEq] at hm'
        subst hm'
        exact ⟨_, _, entry_fresh hn hf⟩
      | some m =>
        simp only [hm, Option.getD_some, Option.some.injEq] at hm'
        subst hm'
        obtain ⟨i', p', he⟩ := hw.instr _ _ hm
        exact ⟨i', p', he.reg⟩
    · obtain ⟨i', p', he⟩ := hw.instr _ _ hm'
      exact ⟨i', p', he.reg⟩
  prd := by
    intro k q hq
    rw [reg_mapPrd, regPrd_find] at hq
    split at hq
    · rename_i hk
      cases hq' : a.mapPrd.find k with
      | none =>
        simp only [hq', Option.getD_none, Option.some.injEq] at hq
        exact ⟨h, i, hf, hk.symm, by rw [← hq]; rfl⟩
      | some q' =>
        simp only [hq', Option.getD_some, Option.some.injEq] at hq
        exact hw.prd k q (by rw [hq', hq])
    · exact hw.prd k q hq

/-- Making a node revives no pointer: a stale pointer has a past generation. -/
theorem Entry.attached_reg {h' : Hash} {i' : InstrumentInfo} (he : Entry info a h m i p) :
    (a.reg name h' i').Attached m ↔ a.Attached m := by
  have hr : Entry info (a.reg name h' i') h m i p := he.reg
  rw [he.attached_iff, hr.attached_iff]
  simp [NodeMap.addr]

theorem attached_fresh (hn : info.nameHash name = h) (hf : info.find h = some i) :
    (a.reg name h i).Attached (freshInstr name i (a.mapPrd.addr i.productHash)) := by
  rw [(entry_fresh hn hf).attached_iff]
  simp [NodeMap.addr]

theorem Linked.reg (hl : Linked info a) (hn : info.nameHash name = h) (hf : info.find h = some i) :
    Linked info (a.reg name h i) where
  toWF := hl.toWF.reg hn hf
  attached := by
    intro h' m' hm'
    rw [reg_find] at hm'
    split at hm'
    · rename_i hh
      subst hh
      cases hm : a.mapInstr.find h' with
      | none =>
        simp only [hm, Option.getD_none, Option.some.injEq] at hm'
        subst hm'
        exact attached_fresh hn hf
      | some m =>
        simp only [hm, Option.getD_some, Option.some.injEq] at hm'
        subst hm'
        obtain ⟨i', p', he⟩ := hl.instr _ _ hm
        exact he.attached_reg.mpr (hl.attached _ _ hm)
    · obtain ⟨i', p', he⟩ := hl.instr _ _ hm'
      exact he.attached_reg.mpr (hl.attached _ _ hm')

/-! ### Events keep the pointers valid -/

section Put

variable {k : Hash} {q : ModPrd α} {b : Books α}

@[simp] theorem put_instr (h' : Hash) :
    (a.put h k b).mapInstr.find h' = if h' = h then some b.instr else a.mapInstr.find h' :=
  NodeMap.find_set _ _ _ _

@[simp] theorem put_prd (k' : Hash) :
    (a.put h k b).mapPrd.find k' = if k' = k then some b.prd else a.mapPrd.find k' :=
  NodeMap.find_set _ _ _ _

@[simp] theorem put_gen : (a.put h k b).mapPrd.gen = a.mapPrd.gen := rfl

@[simp] theorem put_addr (k' : Hash) : (a.put h k b).mapPrd.addr k' = a.mapPrd.addr k' := rfl

@[simp] theorem put_modAcc : (a.put h k b).modAcc = b.acc := rfl

theorem Entry.put {h' : Hash} {m' : ModInstr α} (he : Entry info a h' m i p)
    (hacc : m'.pAcc = m.pAcc) (hname : m'.instrName = m.instrName)
    (hvm : m'.volMultiple = m.volMultiple) (hprd : m'.pPrd = m.pPrd) :
    Entry info (a.put h k b) h' m' i p where
  known := he.known
  pAcc := hacc.trans he.pAcc
  instrName := (congrArg info.nameHash hname).trans he.instrName
  volMultiple := hvm.trans he.volMultiple
  pPrd := hprd.trans he.pPrd
  key := he.key
  gen_le := he.gen_le
  live := by
    intro hg
    rw [put_prd]
    split
    · rfl
    · exact he.live hg

theorem WF.put (hw : WF info a) (hm : a.mapInstr.find h = some m) (hq : a.mapPrd.find k = some q)
    (hb : Keeps ⟨m, q, a.modAcc⟩ b) : WF info (a.put h k b) where
  instr := by
    intro h' m' hm'
    rw [put_instr] at hm'
    split at hm'
    · rename_i hh
      subst hh
      simp only [Option.some.injEq] at hm'
      subst hm'
      obtain ⟨i', p', he⟩ := hw.instr _ _ hm
      exact ⟨i', p', he.put hb.pAcc hb.instrName hb.volMultiple hb.pPrd⟩
    · obtain ⟨i', p', he⟩ := hw.instr _ _ hm'
      exact ⟨i', p', he.put rfl rfl rfl rfl⟩
  prd := by
    intro k' q' hq'
    rw [put_prd] at hq'
    split at hq'
    · rename_i hk
      subst hk
      simp only [Option.some.injEq] at hq'
      obtain ⟨h', i', hf, hk', hn⟩ := hw.prd _ _ hq
      exact ⟨h', i', hf, hk', by rw [← hq', hb.prdName]; exact hn⟩
    · exact hw.prd _ _ hq'

theorem attached_put {m' : ModInstr α} (hq : a.mapPrd.find k = some q) :
    (a.put h k b).Attached m' ↔ a.Attached m' := by
  have hd : ∀ p : Ptr Hash, ((a.put h k b).mapPrd.deref p).isSome ↔ (a.mapPrd.deref p).isSome := by
    intro p
    simp only [NodeMap.deref, put_gen, put_prd]
    split
    · split
      · rename_i hk
        simp [hk, hq]
      · rfl
    · rfl
  simp only [Attached, hd]

theorem Linked.put (hl : Linked info a) (hm : a.mapInstr.find h = some m)
    (hq : a.mapPrd.find k = some q) (hb : Keeps ⟨m, q, a.modAcc⟩ b) :
    Linked info (a.put h k b) where
  toWF := hl.toWF.put hm hq hb
  attached := by
    intro h' m' hm'
    rw [attached_put hq]
    rw [put_instr] at hm'
    split at hm'
    · simp only [Option.some.injEq] at hm'
      obtain ⟨p, hp, hd⟩ := hl.attached _ _ hm
      exact ⟨p, by rw [← hm', hb.pPrd]; exact hp, hd⟩
    · exact hl.attached _ _ hm'

end Put

/-- The books a callback for `h` works on. -/
def booksAt (h : Hash) (i : InstrumentInfo) (a : AccBase α) : Books α where
  instr := (a.mapInstr.find h).getD (freshInstr i.instr i (a.mapPrd.addr i.productHash))
  prd := (a.mapPrd.find i.productHash).getD (freshPrd i)
  acc := a.modAcc

theorem booksAt_unitVol : (a.booksAt h i).instr.unitVol = (a.instrAt h).unitVol := by
  unfold booksAt instrAt
  cases a.mapInstr.find h <;> rfl

theorem booksAt_unitAmt : (a.booksAt h i).instr.unitAmt = (a.instrAt h).unitAmt := by
  unfold booksAt instrAt
  cases a.mapInstr.find h <;> rfl

theorem booksAt_prd_unitVol :
    (a.booksAt h i).prd.unitVol = (a.prdAt i.productHash).unitVol := by
  unfold booksAt prdAt
  cases a.mapPrd.find i.productHash <;> rfl

theorem booksAt_volMultiple (hw : WF info a) (hf : info.find h = some i) :
    (a.booksAt h i).instr.volMultiple = i.volMultiple := by
  unfold booksAt
  cases hm : a.mapInstr.find h with
  | none => rfl
  | some m =>
    obtain ⟨i', p, he⟩ := hw.instr h m hm
    obtain rfl : i = i' := by have := he.known; rw [hf] at this; simpa using this
    exact he.volMultiple

theorem reg_find_self :
    (a.reg i.instr h i).mapInstr.find h = some (a.booksAt h i).instr := by
  rw [reg_find, if_pos rfl]; rfl

theorem reg_find_prd :
    (a.reg i.instr h i).mapPrd.find i.productHash = some (a.booksAt h i).prd := by
  rw [reg_mapPrd, regPrd_find, if_pos rfl]; rfl

theorem onInstr_unknown (f : Books α → Books α) (hf : info.find h = none) : a.onInstr info h f = a := by
  simp [onInstr, hf]

/-- A callback on a known instrument: its event runs on `booksAt`, unless the
instrument's product node has been erased. -/
theorem onInstr_cases (hw : WF info a) (hf : info.find h = some i) (hv : 0 ≤ i.volMultiple)
    (f : Books α → Books α) :
    ((a.reg i.instr h i).Attached (a.booksAt h i).instr ∧
      a.onInstr info h f = (a.reg i.instr h i).put h i.productHash (f (a.booksAt h i))) ∨
    (¬ (a.reg i.instr h i).Attached (a.booksAt h i).instr ∧ a.onInstr info h f = a.reg i.instr h i) := by
  have hon : a.onInstr info h f = (a.reg i.instr h i).withBooks h f := by
    simp [onInstr, hf, regInstr_eq (a := a) (TradeBaseInfo.nameHash_instr hf) hf hv]
  obtain ⟨i', p, he⟩ := (hw.reg (TradeBaseInfo.nameHash_instr hf) hf).instr h _ reg_find_self
  obtain rfl : i = i' := by have := he.known; rw [hf] at this; simpa using this
  by_cases hat : (a.reg i.instr h i).Attached (a.booksAt h i).instr
  · refine Or.inl ⟨hat, ?_⟩
    have hp := he.attached_iff.mp hat
    have hd : (a.reg i.instr h i).mapPrd.deref p = some (a.booksAt h i).prd := by
      rw [hp, NodeMap.deref_addr, reg_find_prd]
    rw [hon, withBooks_eq f reg_find_self he.pAcc he.pPrd hd, he.key, reg_modAcc]
    rfl
  · refine Or.inr ⟨hat, ?_⟩
    have hd : (a.reg i.instr h i).mapPrd.deref p = none := by
      by_contra hne
      exact hat ⟨p, he.pPrd, Option.isSome_iff_ne_none.mpr hne⟩
    rw [hon, withBooks_detached f reg_find_self he.pPrd hd]

theorem Linked.onInstr_eq (hl : Linked info a) (hf : info.find h = some i) (hv : 0 ≤ i.volMultiple)
    (f : Books α → Books α) :
    a.onInstr info h f = (a.reg i.instr h i).put h i.productHash (f (a.booksAt h i)) := by
  rcases onInstr_cases hl.toWF hf hv f with ⟨-, h'⟩ | ⟨hn, -⟩
  · exact h'
  · exact absurd ((hl.reg (TradeBaseInfo.nameHash_instr hf) hf).attached h _ reg_find_self) hn

theorem Linked.onInstr_instrAt (hl : Linked info a) (hf : info.find h = some i)
    (hv : 0 ≤ i.volMultiple) (f : Books α → Books α) (h' : Hash) :
    (a.onInstr info h f).instrAt h' =
      if h' = h then (f (a.booksAt h i)).instr else a.instrAt h' := by
  rw [hl.onInstr_eq hf hv]
  unfold instrAt
  rw [put_instr, reg_find]
  split <;> rfl

theorem Linked.onInstr_prdAt (hl : Linked info a) (hf : info.find h = some i)
    (hv : 0 ≤ i.volMultiple) (f : Books α → Books α) (k : Hash) :
    (a.onInstr info h f).prdAt k =
      if k = i.productHash then (f (a.booksAt h i)).prd else a.prdAt k := by
  rw [hl.onInstr_eq hf hv]
  unfold prdAt
  rw [put_prd, reg_mapPrd, regPrd_find]
  split <;> rfl

/-- No callback moves a node. -/
theorem Linked.onInstr_addr (hl : Linked info a) (hv : info.VolMultiplesOk) (h k : Hash)
    (f : Books α → Books α) :
    (a.onInstr info h f).mapInstr.addr k = a.mapInstr.addr k ∧
      (a.onInstr info h f).mapPrd.addr k = a.mapPrd.addr k := by
  cases hf : info.find h with
  | none => simp [onInstr_unknown f hf]
  | some i =>
    rw [hl.onInstr_eq hf (hv h i hf)]
    constructor
    · rw [show ((a.reg i.instr h i).put h i.productHash (f (a.booksAt h i))).mapInstr.addr k =
        ⟨k, (a.reg i.instr h i).mapInstr.gen k⟩ from rfl, reg_mapInstr_gen]
      rfl
    · rw [put_addr, NodeMap.addr, reg_mapPrd, regPrd_gen]
      rfl

theorem Linked.onInstr_modAcc (hl : Linked info a) (hf : info.find h = some i)
    (hv : 0 ≤ i.volMultiple) (f : Books α → Books α) :
    (a.onInstr info h f).modAcc = (f (a.booksAt h i)).acc := by
  rw [hl.onInstr_eq hf hv, put_modAcc]

theorem Linked.onInstr (hl : Linked info a) (hv : info.VolMultiplesOk) {f : Books α → Books α}
    (hb : ∀ b, Keeps b (f b)) : Linked info (a.onInstr info h f) := by
  cases hf : info.find h with
  | none => rw [onInstr_unknown f hf]; exact hl
  | some i =>
    rw [hl.onInstr_eq hf (hv h i hf)]
    refine (hl.reg (TradeBaseInfo.nameHash_instr hf) hf).put reg_find_self reg_find_prd ?_
    rw [reg_modAcc]
    exact hb (a.booksAt h i)

/-! ### The events of the callbacks -/

section Keeps

variable [OfNat α 1] [Add α] [Sub α] [Mul α] [Div α] [Neg α] [IntCast α] [DecidableEq α]

theorem keeps_orderTrack (t : OrderTrack α) (b : Books α) : Keeps b (orderTrackBooks t b) :=
  ((Keeps.guard _ (Keeps.onNew _ _ _ _ _)).trans
    (Keeps.guard _ (Keeps.onCxl _ _ _ _ _))).trans (Keeps.guard _ (Keeps.onTrd _ _ _ _ _ _ _ _))

theorem keeps_rtn (t : OrderTrack α) (r : RtnMsg α) (b : Books α) : Keeps b (rtnBooks t r b) :=
  (Keeps.guard _ (Keeps.onCxl _ _ _ _ _)).trans (Keeps.guard _ (Keeps.onTrd _ _ _ _ _ _ _ _))

end Keeps

theorem balanced_orderTrack (t : OrderTrack) (b : Books) : Balanced b (orderTrackBooks t b) :=
  ((Balanced.guard _ (Balanced.onNew _ _ _ _ _)).trans
    (Balanced.guard _ (Balanced.onCxl _ _ _ _ _))).trans
      (Balanced.guard _ (Balanced.onTrd _ _ _ _ _ _ _ _))

theorem balanced_rtn (t : OrderTrack) (r : RtnMsg) (b : Books) : Balanced b (rtnBooks t r b) :=
  (Balanced.guard _ (Balanced.onCxl _ _ _ _ _)).trans
    (Balanced.guard _ (Balanced.onTrd _ _ _ _ _ _ _ _))

end AccBase

end NatFramework.Account
