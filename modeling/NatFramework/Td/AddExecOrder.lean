import NatFramework.Account.Beside
import NatFramework.Risk.Requests
import NatFramework.Risk.StrayNode

/-!
# Executions added by hand

`IO_USER_ADD_EXEC_ORDER` books an execution that the engine has not seen: `onNew`
of the risk account, then `onTrd` of the instrument alone. The fill takes back
what `onNew` has added to the account, but not the node that `onNew` has put into
the book of the instrument's orders, under the reference -1.

* `StoredRisk`: `RiskTop` with its nodes in storage, as far as the account and the books go.
* `accBase_addExecOrder`: the account has the order and its fill.
* `not_selfTradeSame`: some later order is answered otherwise, or from nodes that are left
  behind.
* `sameWhileLive_iff`: as long as the storage lasts, when nothing shows.
* `addExec_neutral_iff`: the command in every state of a running engine.
-/
namespace NatFramework.Td

open Lib Account Risk AccBase

/-! ## The engine -/

/-- mirrors include/IOCommon.h:119-127 -/
structure IOUserAddExecOrder where
  instrHash : Hash
  dir : Dir
  off : Off
  price : ℚ
  vol : Int
  accIdx : Nat
  deriving DecidableEq, Repr

/-- `RiskTop`: the account, and the records of the instruments.
mirrors risk/RiskTop.h:15-72 -/
structure StoredRisk where
  accBase : AccBase := {}
  mapRiskInstr : UMap Hash StoredTop := ∅

/-- What reaches a risk account. A check of an order may register the instrument: `limits`
is what `init` then reads of the configuration, none when it does not come to the record. -/
inductive UtilCall where
  | check (instrHash : Hash) (limits : Option RiskInstr)
  | onNew (dir : Dir) (off : Off) (px : ℚ) (vol : Int) (instrHash : Hash) (orderRef nano : Int)
  | onRtn (t : OrderTrack) (m : RtnMsg)
  | onOrderTrack (t : OrderTrack)
  | onTickPx (instrHash : Hash) (tickPx : ℚ)
  | addExec (c : IOUserAddExecOrder) (nano : Int)

namespace StoredRisk

variable (info : TradeBaseInfo) (grow : Nat → Nat)

/-- `map_risk_instr_[instr_hash]` -/
def riskInstrAt (instrHash : Hash) (s : StoredRisk) : StoredTop := (s.mapRiskInstr.lookup instrHash).getD (.new {})

def modifyRiskInstr (instrHash : Hash) (f : StoredTop → StoredTop) (s : StoredRisk) : StoredRisk :=
  { s with mapRiskInstr := s.mapRiskInstr.insert instrHash (f (s.riskInstrAt instrHash)) }

/-- mirrors risk/RiskTop.cpp:33-62,102-116 -/
def register (instrHash : Hash) (limits : Option RiskInstr) (s : StoredRisk) : StoredRisk :=
  match info.find instrHash, s.mapRiskInstr.lookup instrHash with
  | some i, none =>
    { accBase := (s.accBase.regInstr info i.instr).1
      mapRiskInstr := match limits with
        | some l => s.mapRiskInstr.insert instrHash (.new l)
        | none => s.mapRiskInstr }
  | _, _ => s

/-- mirrors risk/RiskTop.cpp:152-159 -/
def onNew (dir : Dir) (off : Off) (px : ℚ) (vol : Int) (instrHash : Hash) (orderRef nano : Int) (s : StoredRisk) :
    StoredRisk :=
  let s := { s with accBase := s.accBase.onNew info dir off px vol instrHash }
  s.modifyRiskInstr instrHash fun r => r.onNew grow dir px orderRef nano

/-- mirrors risk/RiskTop.cpp:161-175 -/
def onRtn (t : OrderTrack) (m : RtnMsg) (s : StoredRisk) : StoredRisk :=
  let s := { s with accBase := s.accBase.onRtn info t m }
  let s := if m.msgType.has .canceled then s.modifyRiskInstr t.instrHash (·.onCxl t) else s
  if m.msgType.has .execution then s.modifyRiskInstr t.instrHash (·.onTrd t) else s

/-- mirrors td/ITDEngine.cpp:255-265 -/
def addExecOrder (c : IOUserAddExecOrder) (nano : Int) (util : StoredRisk) : StoredRisk :=
  let util := util.onNew info grow c.dir c.off c.price c.vol c.instrHash (-1) nano
  { util with
    accBase := util.accBase.withBooks c.instrHash fun b =>
      b.onTrd c.dir c.off c.price c.vol c.vol c.price c.vol }

def next (s : StoredRisk) : UtilCall → StoredRisk
  | .check h limits => s.register info h limits
  | .onNew dir off px vol h orderRef nano => s.onNew info grow dir off px vol h orderRef nano
  | .onRtn t m => s.onRtn info t m
  | .onOrderTrack t => { s with accBase := s.accBase.onOrderTrack info t }
  | .onTickPx h px => { s with accBase := s.accBase.onTickPx info h px }
  | .addExec c nano => s.addExecOrder info grow c nano

def exec (s : StoredRisk) (es : List UtilCall) : StoredRisk := es.foldl (next info grow) s

end StoredRisk

/-- A running engine with its accounts, as a restart leaves them: what is registered has no order. -/
def utilSys (info : TradeBaseInfo) (grow : Nat → Nat) : Sys (List StoredRisk) (Nat × UtilCall) where
  start accs := ∀ s ∈ accs, Linked info s.accBase ∧
    ∀ h r, s.mapRiskInstr.lookup h = some r → ∃ limits, r = .new limits
  ok _ _ := True
  next accs e := accs.modify e.1 fun s => s.next info grow e.2

/-! ## What it should do -/

section Spec

variable (info : TradeBaseInfo) (grow : Nat → Nat)

/-- Through a run the self-trade check of instrument `h` reads no node that is left behind. -/
def Live (h : Hash) (s : StoredRisk) (es : List UtilCall) : Prop :=
  ∀ pre, pre <+: es → ((s.exec info grow pre).riskInstrAt h).LinksValid

/-- The self-trade check answers every later order as before: where the run without the
command reads good nodes, so does the run with it, and the answers are the same. -/
def SelfTradeSame (s s' : StoredRisk) : Prop :=
  ∀ es h, Live info grow h s es → Live info grow h s' es ∧
    ((s.exec info grow es).riskInstrAt h).SameAnswers ((s'.exec info grow es).riskInstrAt h)

/-- As long as neither run leaves nodes behind. -/
def SameWhileLive (s s' : StoredRisk) : Prop :=
  ∀ es h, Live info grow h s es → Live info grow h s' es →
    ((s.exec info grow es).riskInstrAt h).SameAnswers ((s'.exec info grow es).riskInstrAt h)

/-- The account has the fill, and is otherwise as before. -/
structure FillOnly (c : IOUserAddExecOrder) (i : InstrumentInfo) (s s' : StoredRisk) : Prop where
  filled : (s'.accBase.booksAt c.instrHash i).settled =
    ((s.accBase.booksAt c.instrHash i).fill c.dir c.off c.price c.vol).settled
  pending : (s.accBase.booksAt c.instrHash i).SamePending (s'.accBase.booksAt c.instrHash i)
  otherInstrs : ∀ h, h ≠ c.instrHash → s'.accBase.instrAt h = s.accBase.instrAt h
  otherPrds : ∀ k, k ≠ i.productHash → s'.accBase.prdAt k = s.accBase.prdAt k

/-- The account has the fill; nothing else has changed. -/
structure NeutralExec (c : IOUserAddExecOrder) (i : InstrumentInfo) (s s' : StoredRisk) : Prop
    extends FillOnly c i s s' where
  selfTrade : SelfTradeSame info grow s s'

end Spec

/-- An execution of the same side has been added by hand before, at the price or a better one. -/
def HoldsTwin (c : IOUserAddExecOrder) (s : StoredRisk) : Prop :=
  ∃ n ∈ (s.riskInstrAt c.instrHash).nodes (decide (c.dir = .buy)), n.orderRef = -1 ∧
    RiskTop.worth (decide (c.dir = .buy)) c.price ≤ RiskTop.worth (decide (c.dir = .buy)) n.price

/-! ## The account -/

section Command

variable {info : TradeBaseInfo} {grow : Nat → Nat} {s s' : StoredRisk} {c : IOUserAddExecOrder} {i : InstrumentInfo}
  {h : Hash}

/-- An event on the books of a registered instrument. -/
theorem linked_withBooks {a : AccBase} (hl : Linked info a) {h : Hash} (hi : info.find h = some i)
    {m : ModInstr} (hm : a.mapInstr.find h = some m) (f : Books → Books) :
    a.withBooks h f = a.put h i.productHash (f (a.booksAt h i)) := by
  obtain ⟨j, p, he⟩ := hl.instr h m hm
  obtain rfl : i = j := by simpa [hi] using he.known
  have hp := he.attached_iff.mp (hl.attached h m hm)
  obtain ⟨q, hq⟩ : ∃ q, a.mapPrd.find i.productHash = some q := by
    have hlive := he.live (by rw [hp]; rfl)
    rw [he.key] at hlive
    exact Option.isSome_iff_exists.mp hlive
  have hd : a.mapPrd.deref p = some q := by rw [hp, NodeMap.deref_addr, hq]
  rw [withBooks_eq f hm he.pAcc he.pPrd hd, he.key]
  simp [booksAt, hm, hq]

theorem put_put (a : AccBase) (h k : Hash) (b b' : Books) :
    (a.put h k b).put h k b' = a.put h k b' := by
  simp [put, NodeMap.set, AList.insert_insert]

theorem booksAt_put (a : AccBase) (h : Hash) (i : InstrumentInfo) (b : Books) :
    (a.put h i.productHash b).booksAt h i = b := by
  simp [booksAt]

/-- The command is one event of the instrument, an order and its fill. -/
theorem accBase_addExecOrder (hv : info.VolMultiplesOk) (hl : Linked info s.accBase)
    (hi : info.find c.instrHash = some i) (nano : Int) :
    (s.addExecOrder info grow c nano).accBase = s.accBase.onInstr info c.instrHash fun b =>
      (b.onNew c.dir c.off c.price c.vol).onTrd c.dir c.off c.price c.vol c.vol c.price c.vol := by
  have hnew : s.accBase.onNew info c.dir c.off c.price c.vol c.instrHash =
      (s.accBase.reg i.instr c.instrHash i).put c.instrHash i.productHash
        ((s.accBase.booksAt c.instrHash i).onNew c.dir c.off c.price c.vol) :=
    hl.onInstr_eq hi (hv _ i hi) _
  have hl' : Linked info (s.accBase.onNew info c.dir c.off c.price c.vol c.instrHash) :=
    hl.onInstr hv fun b => Keeps.onNew b _ _ _ _
  rw [hnew] at hl'
  rw [hl.onInstr_eq hi (hv _ i hi)]
  simp only [StoredRisk.addExecOrder, StoredRisk.onNew, StoredRisk.modifyRiskInstr, hnew]
  rw [linked_withBooks hl' hi (by rw [put_instr, if_pos rfl]), booksAt_put, put_put]

/-- What the command does to the account. -/
theorem account_addExecOrder (hv : info.VolMultiplesOk) (hl : Linked info s.accBase)
    (hi : info.find c.instrHash = some i) (hleg : (Leg.of c.dir c.off).isSome) (nano : Int) :
    FillOnly c i s (s.addExecOrder info grow c nano) := by
  obtain ⟨l, hl'⟩ := Option.isSome_iff_exists.mp hleg
  have hacc := @accBase_addExecOrder info grow s c i hv hl hi nano
  have hbooks : (s.addExecOrder info grow c nano).accBase.booksAt c.instrHash i =
      ((s.accBase.booksAt c.instrHash i).onNew c.dir c.off c.price c.vol).onTrd c.dir c.off c.price
        c.vol c.vol c.price c.vol := by
    rw [hacc, hl.onInstr_eq hi (hv _ i hi), booksAt_put]
  refine ⟨?_, ?_, fun h hh => ?_, fun k hk => ?_⟩
  · rw [hbooks, Books.onNew_onTrd _ hl', Books.settled_beside _ (l.pending_ing _)
      (l.pending_amtIng _)]
  · rw [hbooks]
    exact Books.samePending_onNew_onTrd _ hl' _ _
  · rw [hacc, hl.onInstr_instrAt hi (hv _ i hi), if_neg hh]
  · rw [hacc, hl.onInstr_prdAt hi (hv _ i hi), if_neg hk]

/-! ## The records -/

namespace StoredRisk

theorem exec_concat (s : StoredRisk) (es : List UtilCall) (e : UtilCall) :
    s.exec info grow (es ++ [e]) = (s.exec info grow es).next info grow e := by
  rw [exec, List.foldl_append]
  rfl

theorem lookup_modifyRiskInstr (h' : Hash) (f : StoredTop → StoredTop) :
    (s.modifyRiskInstr h' f).mapRiskInstr.lookup h =
      if h = h' then some (f (s.riskInstrAt h)) else s.mapRiskInstr.lookup h := by
  rw [modifyRiskInstr, UMap.lookup_insert_ite]
  split
  · rename_i heq
    rw [heq]
  · rfl

theorem riskInstrAt_modifyRiskInstr (h' : Hash) (f : StoredTop → StoredTop) :
    (s.modifyRiskInstr h' f).riskInstrAt h = if h = h' then f (s.riskInstrAt h) else s.riskInstrAt h := by
  rw [riskInstrAt, lookup_modifyRiskInstr]
  split <;> rfl

theorem riskInstrAt_onNew (dir : Dir) (off : Off) (px : ℚ) (vol : Int) (h' : Hash) (orderRef nano : Int) :
    (s.onNew info grow dir off px vol h' orderRef nano).riskInstrAt h =
      if h = h' then (s.riskInstrAt h).onNew grow dir px orderRef nano else s.riskInstrAt h :=
  riskInstrAt_modifyRiskInstr h' _

/-- What a call does to the record of instrument `h`. -/
def events (h : Hash) : UtilCall → List TopEvent
  | .onNew dir _ px _ h' orderRef nano => if h = h' then [.onNew dir px orderRef nano] else []
  | .onRtn t m =>
    if h = t.instrHash then
      (if m.msgType.has .canceled then [.onCxl t] else []) ++ if m.msgType.has .execution then [.onTrd t] else []
    else []
  | .addExec c nano => if h = c.instrHash then [.onNew c.dir c.price (-1) nano] else []
  | .check .. | .onOrderTrack _ | .onTickPx .. => []

/-- But for the limits. -/
theorem riskInstrAt_next (e : UtilCall) : ∃ limits, (s.next info grow e).riskInstrAt h =
    { (s.riskInstrAt h).exec grow (events h e) with toRiskInstr := limits } := by
  have hsame : ∀ {a b : StoredTop}, a = b → ∃ limits, a = { b with toRiskInstr := limits } :=
    fun {_ b} h => ⟨b.toRiskInstr, h⟩
  cases e with
  | check h' limits =>
    unfold next register
    dsimp only
    split
    · rename_i hnone
      cases limits with
      | none => exact hsame rfl
      | some l =>
        by_cases heq : h = h'
        · subst heq
          exact ⟨l, by simp [riskInstrAt, hnone, events, StoredTop.exec, StoredTop.new]⟩
        · exact hsame (by simp [riskInstrAt, heq, events, StoredTop.exec])
    · exact hsame rfl
  | onNew dir off px vol h' orderRef nano =>
    refine hsame ((riskInstrAt_onNew dir off px vol h' orderRef nano).trans ?_)
    rw [events]
    split <;> rfl
  | onRtn t m =>
    refine hsame ?_
    unfold next onRtn events
    dsimp only
    have hacc : { s with accBase := s.accBase.onRtn info t m }.riskInstrAt h = s.riskInstrAt h := rfl
    by_cases hc : m.msgType.has .canceled <;> by_cases ht : m.msgType.has .execution <;>
      by_cases hh : h = t.instrHash <;>
        simp only [hc, ht, hh, hacc, if_true, if_false, Bool.false_eq_true, riskInstrAt_modifyRiskInstr,
          List.append_nil, List.nil_append] <;> rfl
  | onOrderTrack t => exact hsame rfl
  | onTickPx h' px => exact hsame rfl
  | addExec c nano =>
    refine hsame ((riskInstrAt_onNew c.dir c.off c.price c.vol c.instrHash (-1) nano).trans ?_)
    rw [events]
    split <;> rfl

theorem lookup_register_of_ne {h' : Hash} (hne : h ≠ h') (limits : Option RiskInstr) :
    (s.register info h' limits).mapRiskInstr.lookup h = s.mapRiskInstr.lookup h := by
  unfold register
  split
  · cases limits <;> simp [hne]
  · rfl

/-- A call does the same to a record wherever it stands. -/
theorem lookup_next_congr (hs : s.mapRiskInstr.lookup h = s'.mapRiskInstr.lookup h) (e : UtilCall) :
    (s.next info grow e).mapRiskInstr.lookup h = (s'.next info grow e).mapRiskInstr.lookup h := by
  have hmod : ∀ (s s' : StoredRisk) (h' : Hash) (f : StoredTop → StoredTop),
      s.mapRiskInstr.lookup h = s'.mapRiskInstr.lookup h →
        (s.modifyRiskInstr h' f).mapRiskInstr.lookup h = (s'.modifyRiskInstr h' f).mapRiskInstr.lookup h := by
    intro s s' h' f hs
    rw [lookup_modifyRiskInstr, lookup_modifyRiskInstr, riskInstrAt, riskInstrAt, hs]
  cases e with
  | check h' limits =>
    by_cases heq : h = h'
    · subst heq
      unfold next register
      dsimp only
      rw [hs]
      split
      · cases limits <;> simp [hs]
      · exact hs
    · rw [next, next, lookup_register_of_ne heq, lookup_register_of_ne heq, hs]
  | onNew dir off px vol h' orderRef nano => exact hmod _ _ _ _ hs
  | onRtn t m =>
    unfold next onRtn
    dsimp only
    have hcxl := hmod { s with accBase := s.accBase.onRtn info t m } { s' with accBase := s'.accBase.onRtn info t m }
      t.instrHash (·.onCxl t) hs
    cases m.msgType.has .canceled <;> cases m.msgType.has .execution
    · exact hs
    · exact hmod _ _ _ _ hs
    · exact hcxl
    · exact hmod _ _ _ _ hcxl
  | onOrderTrack t => exact hs
  | onTickPx h' px => exact hs
  | addExec c nano => exact hmod _ _ _ _ hs

theorem lookup_exec_congr (hs : s.mapRiskInstr.lookup h = s'.mapRiskInstr.lookup h) (es : List UtilCall) :
    (s.exec info grow es).mapRiskInstr.lookup h = (s'.exec info grow es).mapRiskInstr.lookup h := by
  induction es generalizing s s' with
  | nil => exact hs
  | cons e es ih => exact ih (lookup_next_congr hs e)

theorem shadowed_events {buy : Bool} {x : TreapNode} {r r' : StoredTop} (hsh : StoredTop.Shadowed buy x r r')
    (hr : r.LinksValid) (hr' : r'.LinksValid) (e : UtilCall) :
    StoredTop.Shadowed buy x (r.exec grow (events h e)) (r'.exec grow (events h e)) := by
  have hnext : ∀ e, StoredTop.Shadowed buy x (r.next grow e) (r'.next grow e) := hsh.next hr hr'
  cases e with
  | onNew dir off px vol h' orderRef nano =>
    rw [events]
    split
    · exact hnext (.onNew dir px orderRef nano)
    · exact hsh
  | onRtn t m =>
    have hcxl : ∀ r : StoredTop, r.LinksValid → (r.next grow (.onCxl t)).LinksValid := fun r hr =>
      (StoredTop.linksValid_next hr _).mpr id
    have hboth : StoredTop.Shadowed buy x ((r.next grow (.onCxl t)).next grow (.onTrd t))
        ((r'.next grow (.onCxl t)).next grow (.onTrd t)) := (hnext (.onCxl t)).next (hcxl r hr) (hcxl r' hr') _
    rw [events]
    split
    · cases m.msgType.has .canceled <;> cases m.msgType.has .execution
      · exact hsh
      · exact hnext (.onTrd t)
      · exact hnext (.onCxl t)
      · exact hboth
    · exact hsh
  | addExec c nano =>
    rw [events]
    split
    · exact hnext (.onNew c.dir c.price (-1) nano)
    · exact hsh
  | _ => exact hsh

/-- Orders of one instrument and nothing else. -/
theorem riskInstrAt_news (dir : Dir) (off : Off) (px : ℚ) (vol orderRef nano : Int) (k : Nat) :
    (s.exec info grow (List.replicate k (.onNew dir off px vol h orderRef nano))).riskInstrAt h =
      (s.riskInstrAt h).exec grow (List.replicate k (.onNew dir px orderRef nano)) := by
  induction k generalizing s with
  | zero => rfl
  | succ k ih =>
    rw [List.replicate_succ, List.replicate_succ]
    refine (ih).trans ?_
    rw [next, riskInstrAt_onNew, if_pos rfl]
    rfl

/-- Cancels of one side, as calls of the engine. -/
def cancels (h : Hash) (dir : Dir) (refs : List Int) : List UtilCall :=
  refs.map fun ref => .onRtn { instrHash := h, dir := dir, orderRef := ref } { msgType := ods .canceled }

theorem riskInstrAt_cancels (dir : Dir) (refs : List Int) :
    (s.exec info grow (cancels h dir refs)).riskInstrAt h =
      (s.riskInstrAt h).exec grow (StoredTop.cancels dir refs) := by
  induction refs generalizing s with
  | nil => rfl
  | cons ref refs ih =>
    refine (ih).trans ?_
    have hcxl : (ods .canceled).has .canceled = true := by decide
    have htrd : (ods .canceled).has .execution = false := by decide
    rw [next, onRtn]
    simp only [hcxl, htrd, if_true, Bool.false_eq_true, if_false, riskInstrAt_modifyRiskInstr]
    rfl

/-! ### The books of a running engine -/

def Sided (s : StoredRisk) : Prop := ∀ h, (s.riskInstrAt h).Sided

theorem Sided.next (hs : s.Sided) (e : UtilCall) : (s.next info grow e).Sided := by
  intro h
  obtain ⟨limits, heq⟩ : ∃ limits, (s.next info grow e).riskInstrAt h =
    { (s.riskInstrAt h).exec grow (events h e) with toRiskInstr := limits } := riskInstrAt_next e
  rw [heq]
  exact (hs h).exec (events h e)

theorem Sided.exec (hs : s.Sided) (es : List UtilCall) : (s.exec info grow es).Sided := by
  induction es generalizing s with
  | nil => exact hs
  | cons e es ih => exact ih (hs.next e)

end StoredRisk

/-! ## The command in the books -/

theorem riskInstrAt_addExecOrder (nano : Int) : (s.addExecOrder info grow c nano).riskInstrAt h =
    if h = c.instrHash then (s.riskInstrAt h).onNew grow c.dir c.price (-1) nano else s.riskInstrAt h :=
  StoredRisk.riskInstrAt_onNew ..

theorem lookup_addExecOrder (hne : h ≠ c.instrHash) (nano : Int) :
    (s.addExecOrder info grow c nano).mapRiskInstr.lookup h = s.mapRiskInstr.lookup h :=
  (StoredRisk.lookup_modifyRiskInstr c.instrHash _).trans (if_neg hne)

/-- The node of the command. -/
def strayNode (c : IOUserAddExecOrder) : TreapNode := { orderRef := -1, price := c.price, dir := c.dir }

theorem nodes_addExecOrder (buy : Bool) (nano : Int) :
    ((s.addExecOrder info grow c nano).riskInstrAt c.instrHash).nodes buy =
      (s.riskInstrAt c.instrHash).nodes buy ++ if buy = decide (c.dir = .buy) then [strayNode c] else [] := by
  rw [riskInstrAt_addExecOrder, if_pos rfl, StoredTop.nodes_onNew]
  rfl

theorem linksValid_addExecOrder (hr : (s.riskInstrAt c.instrHash).LinksValid) (nano : Int) :
    ((s.addExecOrder info grow c nano).riskInstrAt c.instrHash).LinksValid ↔
      ¬((s.riskInstrAt c.instrHash).vecTreapNode.Full ∧ (s.riskInstrAt c.instrHash).links ≠ []) := by
  rw [riskInstrAt_addExecOrder, if_pos rfl]
  exact StoredTop.linksValid_next hr (.onNew c.dir c.price (-1) nano)

theorem Live.here {es : List UtilCall} (h' : Live info grow h s es) : (s.riskInstrAt h).LinksValid :=
  h' [] (List.nil_prefix ..)

theorem Live.end {es : List UtilCall} (h' : Live info grow h s es) :
    ((s.exec info grow es).riskInstrAt h).LinksValid := h' es (List.prefix_refl es)

/-- With the storage full the command leaves behind what is linked, or its node is the first
of its side. -/
theorem not_selfTradeSame_of_full (hsided : s.Sided) (hr : (s.riskInstrAt c.instrHash).LinksValid) (nano : Int)
    (hfull : (s.riskInstrAt c.instrHash).vecTreapNode.Full) :
    ¬SelfTradeSame info grow s (s.addExecOrder info grow c nano) := by
  intro hsame
  have hnow : Live info grow c.instrHash s [] := fun pre hpre => by
    rw [List.prefix_nil.mp hpre]
    exact hr
  obtain ⟨hlive, hans⟩ := hsame [] c.instrHash hnow
  have hvalid := hlive.here
  have hnil : (s.riskInstrAt c.instrHash).links = [] := by
    by_contra hne
    exact (linksValid_addExecOrder hr nano).mp hvalid ⟨hfull, hne⟩
  have hsided' : (s.addExecOrder info grow c nano).Sided := hsided.next (.addExec c nano)
  have hside := (StoredTop.sameAnswers_iff_nodes hr hvalid (hsided _) (hsided' _)).mp hans (decide (c.dir = .buy))
    (RiskTop.worth (decide (c.dir = .buy)) c.price)
  obtain ⟨n, hn, -⟩ := hside.mp ⟨strayNode c, by simp [nodes_addExecOrder], le_refl _⟩
  rw [StoredTop.links, List.append_eq_nil_iff] at hnil
  revert hn
  cases decide (c.dir = .buy) <;> simp [StoredTop.nodes, hnil.1, hnil.2]

/-- The command has taken the place of an order that is still to come: when the storage ends,
what is linked is left behind one order early. -/
theorem not_selfTradeSame_of_room (hr : (s.riskInstrAt c.instrHash).LinksValid) (nano : Int)
    (hroom : ¬(s.riskInstrAt c.instrHash).vecTreapNode.Full) :
    ¬SelfTradeSame info grow s (s.addExecOrder info grow c nano) := by
  intro hsame
  obtain ⟨k, hk⟩ := Nat.exists_eq_add_of_lt (Nat.lt_of_not_le hroom)
  have hnew : ∃ dir px orderRef nano, TopEvent.onNew .buy 0 0 0 = .onNew dir px orderRef nano := ⟨_, _, _, _, rfl⟩
  have hlive : Live info grow c.instrHash s (List.replicate (k + 1) (.onNew .buy .opn 0 1 c.instrHash 0 0)) := by
    intro pre hpre
    obtain ⟨hj, hpre⟩ := List.prefix_replicate_iff.mp hpre
    generalize pre.length = j at hj hpre
    subst hpre
    rw [StoredRisk.riskInstrAt_news]
    exact (StoredTop.linksValid_news hr hnew (by omega)).1
  have hvalid := (hsame _ _ hlive).1.end
  rw [StoredRisk.riskInstrAt_news] at hvalid
  refine StoredTop.not_linksValid_news ((linksValid_addExecOrder hr nano).mpr fun h => hroom h.1) ?_ hnew ?_ hvalid
  · rw [riskInstrAt_addExecOrder, if_pos rfl]
    exact List.ne_nil_of_mem (StoredTop.mem_links_onNew.mpr (.inr rfl))
  · rw [riskInstrAt_addExecOrder, if_pos rfl, StoredTop.vec_onNew, GrowVec.elems_emplaceBack,
      GrowVec.capacity_emplaceBack_of_not_full hroom, List.length_append, List.length_singleton]
    omega

/-- **Some later order shows the command**, or is answered from nodes that are left behind. -/
theorem not_selfTradeSame (hsided : s.Sided) (hr : (s.riskInstrAt c.instrHash).LinksValid) (nano : Int) :
    ¬SelfTradeSame info grow s (s.addExecOrder info grow c nano) := by
  by_cases hfull : (s.riskInstrAt c.instrHash).vecTreapNode.Full
  · exact not_selfTradeSame_of_full hsided hr nano hfull
  · exact not_selfTradeSame_of_room hr nano hfull

/-- The books go on side by side. -/
theorem shadowed_exec {buy : Bool} {x : TreapNode} {es : List UtilCall}
    (hsh : StoredTop.Shadowed buy x (s.riskInstrAt h) (s'.riskInstrAt h)) (hlive : Live info grow h s es)
    (hlive' : Live info grow h s' es) :
    StoredTop.Shadowed buy x ((s.exec info grow es).riskInstrAt h) ((s'.exec info grow es).riskInstrAt h) := by
  induction es using List.reverseRecOn with
  | nil => exact hsh
  | append_singleton es e ih =>
    have hpre : es <+: es ++ [e] := List.prefix_append es [e]
    have hsh := ih (fun pre hp => hlive pre (hp.trans hpre)) fun pre hp => hlive' pre (hp.trans hpre)
    obtain ⟨l, hl⟩ := @StoredRisk.riskInstrAt_next info grow (s.exec info grow es) h e
    obtain ⟨l', hl'⟩ := @StoredRisk.riskInstrAt_next info grow (s'.exec info grow es) h e
    have hnext : StoredTop.Shadowed buy x
        (((s.exec info grow es).riskInstrAt h).exec grow (StoredRisk.events h e))
        (((s'.exec info grow es).riskInstrAt h).exec grow (StoredRisk.events h e)) :=
      StoredRisk.shadowed_events hsh (hlive es hpre) (hlive' es hpre) e
    rw [StoredRisk.exec_concat, StoredRisk.exec_concat, hl, hl']
    exact ⟨hnext.other, hnext.kept, hnext.stray⟩

theorem shadowed_addExecOrder (hg : HoldsTwin c s) (nano : Int) :
    StoredTop.Shadowed (decide (c.dir = .buy)) (strayNode c) (s.riskInstrAt c.instrHash)
      ((s.addExecOrder info grow c nano).riskInstrAt c.instrHash) where
  other n := by simp [nodes_addExecOrder]
  kept n hn := by
    rw [nodes_addExecOrder]
    exact List.mem_append_left _ hn
  stray n hn := by
    rw [nodes_addExecOrder, if_pos rfl] at hn
    exact (List.mem_append.mp hn).imp id fun hn => ⟨List.mem_singleton.mp hn, hg⟩

theorem live_cancels (hr : (s.riskInstrAt h).LinksValid) {dir : Dir} {refs : List Int} :
    Live info grow h s (StoredRisk.cancels h dir refs) := by
  intro pre hpre
  obtain ⟨some, -, rfl⟩ := List.prefix_map_iff.mp hpre
  have hat : (s.exec info grow (StoredRisk.cancels h dir some)).riskInstrAt h =
      (s.riskInstrAt h).exec grow (StoredTop.cancels dir some) :=
    StoredRisk.riskInstrAt_cancels dir some
  exact hat ▸ (StoredTop.exec_cancels hr dir some).1

/-- When the orders of the side are cancelled, only what came by hand is left. -/
theorem holdsTwin_of_same (hsided : s.Sided) (hr : (s.riskInstrAt c.instrHash).LinksValid)
    (hr' : ((s.addExecOrder info grow c nano).riskInstrAt c.instrHash).LinksValid)
    (hsame : SameWhileLive info grow s (s.addExecOrder info grow c nano)) : HoldsTwin c s := by
  let own := decide (c.dir = .buy)
  let refs := (((s.riskInstrAt c.instrHash).nodes own).map (·.orderRef)).filter (· ≠ -1)
  have hsided' : (s.addExecOrder info grow c nano).Sided := hsided.next (.addExec c nano)
  have hlive : Live info grow c.instrHash s (StoredRisk.cancels c.instrHash c.dir refs) := live_cancels hr
  have hlive' := @live_cancels info grow _ _ hr' c.dir refs
  have hans := hsame _ c.instrHash hlive hlive'
  rw [StoredTop.sameAnswers_iff_nodes hlive.end hlive'.end (hsided.exec _ _) (hsided'.exec _ _)] at hans
  have hown := hans own (RiskTop.worth own c.price)
  simp only [StoredRisk.riskInstrAt_cancels] at hown
  have hnodes := (@StoredTop.exec_cancels grow _ hr c.dir refs).2 own
  have hnodes' := (@StoredTop.exec_cancels grow _ hr' c.dir refs).2 own
  have hstray : strayNode c ∈ ((s.addExecOrder info grow c nano).riskInstrAt c.instrHash |>.exec grow
      (StoredTop.cancels c.dir refs)).nodes own := by
    refine (hnodes' _).mpr ⟨by simp [nodes_addExecOrder, own], ?_⟩
    rintro ⟨-, ref, href, heq⟩
    obtain ⟨hmem, hne⟩ := List.mem_filter.mp href
    obtain ⟨n, hn, rfl⟩ := List.mem_map.mp hmem
    rw [(hsided _ own n hn).2] at heq
    exact of_decide_eq_true hne heq.symm
  obtain ⟨n, hn, hworth⟩ := hown.mp ⟨strayNode c, hstray, le_refl _⟩
  obtain ⟨hn, hkept⟩ := (hnodes n).mp hn
  refine ⟨n, hn, ?_, hworth⟩
  by_contra hne
  exact hkept ⟨rfl, n.orderRef, List.mem_filter.mpr ⟨List.mem_map_of_mem hn, decide_eq_true hne⟩,
    (hsided _ own n hn).2.symm⟩

theorem riskInstrAt_exec_addExecOrder (hne : h ≠ c.instrHash) (nano : Int) (es : List UtilCall) :
    (s.exec info grow es).riskInstrAt h = ((s.addExecOrder info grow c nano).exec info grow es).riskInstrAt h := by
  have hat : ((s.addExecOrder info grow c nano).exec info grow es).mapRiskInstr.lookup h =
      (s.exec info grow es).mapRiskInstr.lookup h :=
    StoredRisk.lookup_exec_congr (lookup_addExecOrder hne nano) es
  rw [StoredRisk.riskInstrAt, StoredRisk.riskInstrAt, hat]

/-- **As long as the storage lasts** the command shows exactly when it is the first of its
kind: every order of the side may go before it does. -/
theorem sameWhileLive_iff (hsided : s.Sided) (hr : (s.riskInstrAt c.instrHash).LinksValid)
    (hroom : ¬(s.riskInstrAt c.instrHash).vecTreapNode.Full) (nano : Int) :
    SameWhileLive info grow s (s.addExecOrder info grow c nano) ↔ HoldsTwin c s := by
  have hr' : ((s.addExecOrder info grow c nano).riskInstrAt c.instrHash).LinksValid :=
    (linksValid_addExecOrder hr nano).mpr fun h => hroom h.1
  have hsided' : (s.addExecOrder info grow c nano).Sided := hsided.next (.addExec c nano)
  refine ⟨holdsTwin_of_same hsided hr hr', fun hg es h hlive hlive' => ?_⟩
  by_cases hh : h = c.instrHash
  · subst hh
    have hsh := shadowed_exec (@shadowed_addExecOrder info grow s c hg nano) hlive hlive'
    exact hsh.sameAnswers hlive.end hlive'.end (hsided.exec es _) (hsided'.exec es _)
  · exact riskInstrAt_exec_addExecOrder hh nano es ▸ StoredTop.SameAnswers.refl _

/-! ## The running engine -/

namespace StoredRisk

theorem linked_next (hv : info.VolMultiplesOk) (hl : Linked info s.accBase) (e : UtilCall) :
    Linked info (s.next info grow e).accBase := by
  cases e with
  | check h limits =>
    unfold next register
    dsimp only
    split
    · exact (sameNumbers_regInstr hv hl _).1
    · exact hl
  | onNew dir off px vol h orderRef nano => exact hl.onInstr hv fun b => Keeps.onNew b _ _ _ _
  | onRtn t m =>
    have hr : Linked info (s.accBase.onRtn info t m) := hl.onInstr hv (keeps_rtn t m)
    unfold next onRtn
    dsimp only
    split <;> split <;> exact hr
  | onOrderTrack t => exact hl.onInstr hv (keeps_orderTrack t)
  | onTickPx h px => exact hl.onInstr hv fun b => Keeps.onTickPx b _
  | addExec c nano =>
    cases hi : info.find c.instrHash with
    | none =>
      -- an unknown instrument has no entry in the account
      have hnew : s.accBase.onNew info c.dir c.off c.price c.vol c.instrHash = s.accBase := onInstr_unknown _ hi
      have hnone : s.accBase.mapInstr.find c.instrHash = none := by
        by_contra hne
        obtain ⟨m, hm⟩ := Option.ne_none_iff_exists'.mp hne
        obtain ⟨j, p, he⟩ := hl.instr _ m hm
        rw [he.known] at hi
        cases hi
      simp only [next, addExecOrder, onNew, modifyRiskInstr, hnew, withBooks, hnone]
      exact hl
    | some i =>
      rw [next, accBase_addExecOrder hv hl hi]
      exact hl.onInstr hv fun b => (Keeps.onNew b _ _ _ _).trans (Keeps.onTrd _ _ _ _ _ _ _ _)

end StoredRisk

theorem linked_sided (hv : info.VolMultiplesOk) {accs : List StoredRisk} (hr : (utilSys info grow).Reachable accs) :
    ∀ s ∈ accs, Linked info s.accBase ∧ s.Sided := by
  refine (utilSys info grow).invariant (I := fun accs => ∀ s ∈ accs, Linked info s.accBase ∧ s.Sided)
    (fun accs h s hs => ⟨(h s hs).1, fun hash => ?_⟩) (fun accs e h _ s hs => ?_) hr
  · rw [StoredRisk.riskInstrAt]
    cases hl : s.mapRiskInstr.lookup hash with
    | none => exact StoredTop.sided_new _
    | some r =>
      obtain ⟨limits, rfl⟩ := (h s hs).2 hash r hl
      exact StoredTop.sided_new limits
  · obtain ⟨k, hk, rfl⟩ := List.mem_iff_getElem.mp hs
    have hlt : k < accs.length := by simpa [utilSys] using hk
    have hat : ((utilSys info grow).next accs e)[k] = if e.1 = k then accs[k].next info grow e.2 else accs[k] :=
      List.getElem_modify ..
    obtain ⟨hl, hsided⟩ := h accs[k] (List.getElem_mem hlt)
    rw [hat]
    split
    · exact ⟨StoredRisk.linked_next hv hl e.2, hsided.next e.2⟩
    · exact ⟨hl, hsided⟩

/-- An execution of 1 at 9 added by hand. -/
def handBuy : IOUserAddExecOrder := { instrHash := 1, dir := .buy, off := .opn, price := 9, vol := 1, accIdx := 0 }

/-- The engine of one account, with the capacity doubled whenever the storage is full. -/
abbrev rbUtils : Sys (List StoredRisk) (Nat × UtilCall) := utilSys .rb (2 * ·)

end Command

end NatFramework.Td
