import NatFramework.Account.Pending
import NatFramework.Risk.RiskTop

/-!
# No self-trade

`RiskInstrTop` answers from the top of a treap alone. What makes that right is
that each treap holds exactly the live orders of its side (`Inv.side`): an
order enters by `onNew`, and leaves by the message bit that closes it or by the
fill that completes it, whichever comes first. The treap is a parameter with
the laws `Treap.Lawful`.

* `side_onNew`, `mem_side_onRtn`: what the two calls do to a treap.
* `check_iff`: the two self-trade answers mean a live order that would be
  crossed.
* `noSelfTrade_of_run`: no live buy crosses a live sell in any run.
-/
namespace NatFramework.Risk

open Lib Account

theorem toInt_of_fits {x : Int} (h : -2 ^ 31 ≤ x ∧ x < 2 ^ 31) : toInt x = x := by
  unfold toInt
  rw [Int.bmod_def]
  split <;> omega

/-- The checks of `RiskInstr` have codes of their own. -/
theorem RiskInstr.check_ne (r : RiskInstr) (ab : AccBase) (dir : Dir) (off : Off) (vol nano : Int) :
    r.check ab dir off vol nano ≠ -230 ∧ r.check ab dir off vol nano ≠ -231 := by
  simp only [RiskInstr.check]
  refine ⟨?_, ?_⟩ <;> repeat' split
  all_goals decide

/-- The two self-trade answers of a record look at the tops of its treaps. -/
theorem RiskInstrTop.check_iff_top {τ : Type} {O : Treap τ} (r : RiskInstrTop τ) (ab : AccBase) (dir : Dir) (off : Off) (px : ℚ)
    (vol nano : Int) :
    (r.check O ab dir off px vol nano = -230 ↔
      dir = .buy ∧ ∃ n, O.top r.askTreap = some n ∧ n.price ≤ px) ∧
    (r.check O ab dir off px vol nano = -231 ↔
      dir ≠ .buy ∧ ∃ n, O.top r.bidTreap = some n ∧ px ≤ n.price) := by
  obtain ⟨h1, h2⟩ := r.toRiskInstr.check_ne ab dir off vol nano
  unfold RiskInstrTop.check
  by_cases hd : dir = .buy
  · subst hd
    rw [if_pos rfl]
    cases O.top r.askTreap with
    | none => simp [h1, h2]
    | some n => by_cases hp : n.price ≤ px <;> simp [hp, h1, h2]
  · rw [if_neg hd]
    cases O.top r.bidTreap with
    | none => simp [hd, h1, h2]
    | some n => by_cases hp : px ≤ n.price <;> simp [hd, hp, h1, h2]

namespace RiskTop

variable {τ : Type} (O : Treap τ) (info : TradeBaseInfo) (h : Hash)

/-- The treap of a side of instrument `h`. -/
def side (buy : Bool) (s : RiskTop τ) : τ :=
  if buy then (s.riskInstrAt O h).bidTreap else (s.riskInstrAt O h).askTreap

variable {O info h} {s : RiskTop τ}

/-- Registration writes the configuration of a record, not its treaps. -/
theorem side_regRiskInstr (name : String) (buy : Bool) :
    side O h buy (s.regRiskInstr O info name).1 = side O h buy s := by
  unfold regRiskInstr
  simp only
  split
  · rfl
  · split
    · rfl
    · unfold side riskInstrAt
      simp only [UMap.lookup_insert_ite]
      by_cases hh : h = info.nameHash name
      · rw [if_pos hh, ← hh]
        rfl
      · rw [if_neg hh]

theorem side_regRiskPrd (name : String) (buy : Bool) :
    side O h buy (s.regRiskPrd info name).1 = side O h buy s := by
  unfold regRiskPrd
  simp only
  split <;> rfl

theorem side_regInstr (O : Treap τ) (info : TradeBaseInfo) (s : RiskTop τ) (h : Hash) (name : String)
    (buy : Bool) :
    side O h buy (s.regInstr O info name).1 = side O h buy s := by
  unfold regInstr
  split
  · rfl
  · rename_i ab hab
    simp only
    split
    · rfl
    · rename_i i hi
      have hprd : side O h buy (if isExistRiskPrd i.productHash { s with accBase := ab } then
          ({ s with accBase := ab }, some true)
          else regRiskPrd info i.product { s with accBase := ab }).1 = side O h buy s := by
        split
        · rfl
        · exact side_regRiskPrd _ _
      split
      · rename_i hx
        rw [hx] at hprd
        split
        · exact hprd
        · rw [side_regRiskInstr]
          exact hprd
      · rename_i hx
        rw [hx] at hprd
        exact hprd

/-- A successful registration leaves a record, so that the loop of `check` ends. -/
theorem isExist_regInstr {name : String} {s' : RiskTop τ}
    (hr : s.regInstr O info name = (s', some true)) :
    s'.isExistRiskInstr (info.nameHash name) = true := by
  unfold regInstr at hr
  split at hr
  · simp at hr
  simp only at hr
  split at hr
  · simp at hr
  split at hr
  · split at hr
    · rename_i hx
      cases hr
      exact hx
    · unfold regRiskInstr at hr
      simp only at hr
      split at hr
      · rename_i hx
        cases hr
        exact hx
      · split at hr
        · simp at hr
        · simp only [Prod.mk.injEq] at hr
          rw [← hr.1]
          simp [isExistRiskInstr]
  · rename_i hne hx
    obtain ⟨-, rfl⟩ := Prod.mk.injEq _ _ _ _ ▸ hr
    exact (hne rfl).elim

/-- A registration on demand leaves what a registration leaves. -/
theorem findOrReg_fst (i : InstrumentInfo) :
    (s.findOrReg O info i).1 =
      if s.mapRiskInstr.lookup i.instrHash = none then (s.regInstr O info i.instr).1 else s := by
  unfold findOrReg
  split <;> rename_i hl <;> rw [hl]
  · rfl
  · rw [if_pos rfl]
    split <;> rename_i hx <;> rw [hx]
    split <;> rfl

theorem side_findOrReg (i : InstrumentInfo) (buy : Bool) :
    side O h buy (s.findOrReg O info i).1 = side O h buy s := by
  rw [findOrReg_fst]
  split
  · exact side_regInstr O info _ h i.instr buy
  · rfl

theorem findOrReg_ok {i : InstrumentInfo} {s' : RiskTop τ} {r : RiskInstrTop τ}
    (hr : s.findOrReg O info i = (s', .ok r)) : s'.mapRiskInstr.lookup i.instrHash = some r := by
  unfold findOrReg at hr
  split at hr
  · rename_i hx
    simp only [Prod.mk.injEq, Except.ok.injEq] at hr
    rw [← hr.1, ← hr.2, hx]
  · split at hr
    · cases hr
    · cases hr
    · split at hr <;> rename_i hx
      · simp only [Prod.mk.injEq, Except.ok.injEq] at hr
        rw [← hr.1, ← hr.2, hx]
      · cases hr

/-- A registration that fails is not answered 0. -/
theorem findOrReg_error {i : InstrumentInfo} {s' : RiskTop τ} {ret : Option Int}
    (hr : s.findOrReg O info i = (s', .error ret)) : ret = none ∨ ret = some (-404) := by
  unfold findOrReg at hr
  split at hr
  · cases hr
  · split at hr
    · exact Or.inl (Except.error.inj (Prod.mk.inj hr).2).symm
    · exact Or.inr (Except.error.inj (Prod.mk.inj hr).2).symm
    · split at hr
      · cases hr
      · exact Or.inl (Except.error.inj (Prod.mk.inj hr).2).symm

theorem side_check (dir : Dir) (off : Off) (px : ℚ) (vol nano : Int) (h' : Hash) (buy : Bool) :
    side O h buy (s.check O info dir off px vol h' nano).1 = side O h buy s := by
  unfold check
  split
  · rfl
  · rename_i i hi
    have hs : side O h buy (s.findOrReg O info i).1 = side O h buy s := side_findOrReg i buy
    split
    · rename_i hx
      rw [hx] at hs
      exact hs
    · rename_i hx
      rw [hx] at hs
      rw [← hs]
      simp only
      split
      · rfl
      · split
        · rfl
        · split <;> rfl

/-- A passed check has passed the self-trade check of the instrument's treaps. -/
theorem check_zero {i : InstrumentInfo} {dir : Dir} {off : Off} {px : ℚ} {vol nano : Int}
    (hi : info.find h = some i) (h0 : (s.check O info dir off px vol h nano).2 = some 0) :
    ∃ r : RiskInstrTop τ, ∃ ab, r.check O ab dir off px vol nano = 0 ∧
      r.bidTreap = side O h true s ∧ r.askTreap = side O h false s := by
  unfold check at h0
  rw [hi] at h0
  simp only at h0
  split at h0
  · rename_i hx
    rcases findOrReg_error hx with rfl | rfl <;> simp at h0
  · rename_i s' r hx
    refine ⟨r, s'.accBase, ?_, ?_, ?_⟩
    · split at h0
      · simp at h0
      · split at h0
        · rename_i hne
          exact absurd (Option.some.inj h0) hne
        · rename_i hne
          exact not_not.mp hne
    all_goals
      have hl := findOrReg_ok hx
      have hs : ∀ buy, side O h buy (s.findOrReg O info i).1 = side O h buy s := side_findOrReg i
      rw [TradeBaseInfo.instrHash_eq hi] at hl
      rw [← hs, hx]
      simp [side, riskInstrAt, hl]

/-! ## What `onNew` and `onRtn` do to the treaps -/

/-- The node of an order. -/
def node (ref : Int) (o : Order) : TreapNode :=
  { orderRef := toInt ref, price := o.price, dir := o.dir }

theorem side_modify (f : RiskInstrTop τ → RiskInstrTop τ) (buy : Bool) :
    side O h buy (s.modifyRiskInstr O h f) =
      if buy then (f (s.riskInstrAt O h)).bidTreap else (f (s.riskInstrAt O h)).askTreap := by
  have hr : (s.modifyRiskInstr O h f).riskInstrAt O h = f (s.riskInstrAt O h) := by
    simp [riskInstrAt, modifyRiskInstr]
  rw [side, hr]

theorem side_onNew {o : Order} {ref nano : Int} (buy : Bool) :
    side O h buy (s.onNew O info o.dir o.off o.price o.vol h ref nano) =
      if buy = decide (o.dir = .buy) then O.pushBack (node ref o) (side O h buy s)
      else side O h buy s := by
  unfold onNew
  rw [side_modify]
  unfold side RiskInstrTop.onNew riskInstrAt
  by_cases hd : o.dir = .buy <;> cases buy <;> simp [hd, node]

/-- The order leaves its treap: it is closed or completely filled. -/
def Leaves (t : OrderTrack) (m : RtnMsg) : Prop :=
  m.msgType.has .canceled = true ∨ m.msgType.has .execution = true ∧ t.volTraded = t.vol

theorem mem_side_onRtn (hO : O.Lawful) {t : OrderTrack} {m : RtnMsg} (ht : t.instrHash = h)
    (buy : Bool) (n : TreapNode) :
    O.mem n (side O h buy (s.onRtn O info t m)) ↔
      O.mem n (side O h buy s) ∧
        ¬ (buy = decide (t.dir = .buy) ∧ Leaves t m ∧ n.orderRef = toInt t.orderRef) := by
  have hcxl : ∀ s : RiskTop τ, O.mem n (side O h buy (s.modifyRiskInstr O h fun r => r.onCxl O t)) ↔
      O.mem n (side O h buy s) ∧ ¬ (buy = decide (t.dir = .buy) ∧ n.orderRef = toInt t.orderRef) := by
    intro s
    rw [side_modify]
    unfold side RiskInstrTop.onCxl
    by_cases hd : t.dir = .buy <;> cases buy <;> simp [hd, hO.mem_erase]
  have htrd : ∀ s : RiskTop τ, O.mem n (side O h buy (s.modifyRiskInstr O h fun r => r.onTrd O t)) ↔
      O.mem n (side O h buy s) ∧ ¬ (buy = decide (t.dir = .buy) ∧ t.volTraded = t.vol ∧
        n.orderRef = toInt t.orderRef) := by
    intro s
    rw [side_modify]
    unfold side RiskInstrTop.onTrd
    by_cases hf : t.volTraded = t.vol <;> by_cases hd : t.dir = .buy <;> cases buy <;>
      simp [hf, hd, hO.mem_erase]
  have hacc : side O h buy { s with accBase := s.accBase.onRtn info t m } = side O h buy s := rfl
  unfold onRtn Leaves
  rw [ht]
  by_cases hc : m.msgType.has .canceled <;> by_cases he : m.msgType.has .execution <;>
    simp only [hc, he, if_true, if_false, hcxl, htrd, hacc, true_and, true_or, false_or, false_and,
      Bool.false_eq_true, not_false_eq_true, and_false, and_true]
  tauto

/-! ## The top decides -/

/-- The higher the better for a buy, the lower for the other side. -/
def worth (buy : Bool) (px : ℚ) : ℚ := if buy then px else -px

/-- The top of a treap of one side decides whether some order in it is as good as `c`. -/
theorem exists_mem_iff_top (hO : O.Lawful) {t : τ} {buy : Bool}
    (hdir : ∀ n, O.mem n t → decide (n.dir = .buy) = buy) (c : ℚ) :
    (∃ n, O.mem n t ∧ c ≤ worth buy n.price) ↔ ∃ n, O.top t = some n ∧ c ≤ worth buy n.price := by
  have hscore : ∀ x y, O.mem x t → O.mem y t →
      (TreapNode.priorityOrder x y = true ↔ worth buy y.price < worth buy x.price) := by
    intro x y hx _
    have hd := hdir x hx
    unfold TreapNode.priorityOrder worth
    cases buy
    · rw [if_neg (of_decide_eq_false hd)]
      simp
    · rw [if_pos (of_decide_eq_true hd)]
      simp
  constructor
  · rintro ⟨n, hmem, hc⟩
    cases htop : O.top t with
    | none => exact absurd hmem ((hO.top_none _).mp htop _)
    | some m => exact ⟨m, rfl, hc.trans ((hO.top_best _ m (fun x => worth buy x.price) hscore htop).2 _ hmem)⟩
  · rintro ⟨n, htop, hc⟩
    exact ⟨n, (hO.top_best _ n (fun x => worth buy x.price) hscore htop).1, hc⟩

end RiskTop

/-! ## Runs on one instrument -/

open RiskTop

/-- The risk account and the orders issued through it, by `order_ref`. -/
structure Desk (τ : Type) where
  top : RiskTop τ
  orders : UMap Int Live

inductive DeskEvent where
  /-- A check, whatever it answers. -/
  | check (dir : Dir) (off : Off) (px : ℚ) (vol nano : Int)
  /-- A check that answers 0, and `onNew` at a later time. -/
  | submit (ref : Int) (o : Order) (nano nano' : Int)
  | rtn (t : OrderTrack) (m : RtnMsg)
  | tickPx (px : ℚ)
  deriving DecidableEq, Repr

namespace Desk

variable {τ : Type} (O : Treap τ) (info : TradeBaseInfo) (h : Hash)

def next (s : Desk τ) : DeskEvent → Desk τ
  | .check dir off px vol nano => { s with top := (s.top.check O info dir off px vol h nano).1 }
  | .submit ref o nano nano' =>
    { top := (s.top.check O info o.dir o.off o.price o.vol h nano).1.onNew O info o.dir o.off o.price
        o.vol h ref nano'
      orders := s.orders.insert ref { ord := o } }
  | .rtn t m =>
    { top := s.top.onRtn O info t m
      orders := match s.orders.lookup t.orderRef with
        | some x => s.orders.insert t.orderRef (x.returned m)
        | none => s.orders }
  | .tickPx px => { s with top := s.top.onTickPx info h px }

/-- References are fresh, increasing and fit an `int`; returns are about issued
orders, within what remains of them. -/
def Ok (s : Desk τ) : DeskEvent → Prop
  | .submit ref o nano _ => o.instrHash = h ∧ 1 ≤ o.vol ∧ (-2 ^ 31 ≤ ref ∧ ref < 2 ^ 31) ∧
      (∀ ref' x, s.orders.lookup ref' = some x → ref' < ref) ∧
      (s.top.check O info o.dir o.off o.price o.vol h nano).2 = some 0
  | .rtn t m => ∃ x, s.orders.lookup t.orderRef = some x ∧ x.Accepts t m
  | .check .. | .tickPx _ => True

/-- Runs from a risk account that has no order of the instrument. -/
def sys : Lib.Sys (Desk τ) DeskEvent where
  start s := s.orders = ∅ ∧ s.top.mapRiskInstr.lookup h = none
  ok := Ok O info h
  next := next O info h

/-- A live order of a side. -/
def LiveOn (s : Desk τ) (buy : Bool) (ref : Int) (o : Order) : Prop :=
  ∃ x, s.orders.lookup ref = some x ∧ x.isOpen = true ∧ x.ord = o ∧ decide (o.dir = .buy) = buy

/-- No live buy order has the price of a live order of the other side, or a
better one. -/
def NoCross (s : Desk τ) : Prop :=
  ∀ ref o ref' o', s.LiveOn true ref o → s.LiveOn false ref' o' → o.price < o'.price

structure Inv (s : Desk τ) : Prop where
  side : ∀ buy n, O.mem n (side O h buy s.top) ↔ ∃ ref o, s.LiveOn buy ref o ∧ n = node ref o
  orders : ∀ ref x, s.orders.lookup ref = some x →
    (-2 ^ 31 ≤ ref ∧ ref < 2 ^ 31) ∧ x.ord.instrHash = h
  noCross : s.NoCross

variable {O info h}

/-- The top of a treap decides whether some live order of its side is as good
as `c`. -/
theorem exists_live_iff_top (hO : O.Lawful) {s : Desk τ} (hs : Inv O h s) (buy : Bool) (c : ℚ) :
    (∃ ref o, s.LiveOn buy ref o ∧ c ≤ worth buy o.price) ↔
      ∃ n, O.top (RiskTop.side O h buy s.top) = some n ∧ c ≤ worth buy n.price := by
  have hdir : ∀ n, O.mem n (RiskTop.side O h buy s.top) → decide (n.dir = .buy) = buy := by
    intro n hn
    obtain ⟨ref, o, ⟨x, -, -, -, hd⟩, rfl⟩ := (hs.side buy n).mp hn
    exact hd
  rw [← exists_mem_iff_top hO hdir]
  constructor
  · rintro ⟨ref, o, hlive, hc⟩
    exact ⟨_, (hs.side buy (node ref o)).mpr ⟨ref, o, hlive, rfl⟩, hc⟩
  · rintro ⟨n, hmem, hc⟩
    obtain ⟨ref, o, hlive, rfl⟩ := (hs.side buy n).mp hmem
    exact ⟨ref, o, hlive, hc⟩

/-- The two self-trade answers mean a live order that would be crossed. -/
theorem check_iff (hO : O.Lawful) {s : Desk τ} (hs : Inv O h s) {r : RiskInstrTop τ}
    (hbid : r.bidTreap = RiskTop.side O h true s.top)
    (hask : r.askTreap = RiskTop.side O h false s.top)
    (ab : AccBase) (dir : Dir) (off : Off) (px : ℚ) (vol nano : Int) :
    (r.check O ab dir off px vol nano = -230 ↔
      dir = .buy ∧ ∃ ref o, s.LiveOn false ref o ∧ o.price ≤ px) ∧
    (r.check O ab dir off px vol nano = -231 ↔
      dir ≠ .buy ∧ ∃ ref o, s.LiveOn true ref o ∧ px ≤ o.price) := by
  have hsell := exists_live_iff_top hO hs false (-px)
  have hbuy := exists_live_iff_top hO hs true px
  simp only [worth, Bool.false_eq_true, if_false, if_true, neg_le_neg_iff] at hsell hbuy
  rw [hsell, hbuy, ← hask, ← hbid]
  exact r.check_iff_top ab dir off px vol nano

/-! ### One event -/

theorem inv_start (hO : O.Lawful) (s : Desk τ) (hs : (sys O info h).start s) : Inv O h s := by
  obtain ⟨h0, hr⟩ := hs
  have hno : ∀ ref, s.orders.lookup ref = none := fun ref => by rw [h0]; rfl
  refine ⟨?_, ?_, ?_⟩
  · intro buy n
    constructor
    · intro hn
      have hempty : RiskTop.side O h buy s.top = O.empty := by
        unfold RiskTop.side riskInstrAt
        rw [hr]
        cases buy <;> rfl
      rw [hempty] at hn
      exact absurd hn (hO.mem_empty n)
    · rintro ⟨ref, o, ⟨x, hx, -⟩, -⟩
      rw [hno] at hx
      cases hx
  · intro ref x hx
    rw [hno] at hx
    cases hx
  · rintro ref o ref' o' ⟨x, hx, -⟩
    rw [hno] at hx
    cases hx

/-- Events that leave the treaps and the orders alone. -/
theorem Inv.congr {s : Desk τ} (hs : Inv O h s) {top : RiskTop τ}
    (ht : ∀ buy, RiskTop.side O h buy top = RiskTop.side O h buy s.top) :
    Inv O h { s with top := top } where
  side := by
    intro buy n
    rw [ht]
    exact hs.side buy n
  orders := hs.orders
  noCross := hs.noCross

theorem inv_submit (hO : O.Lawful) {i : InstrumentInfo} (hi : info.find h = some i) {s : Desk τ}
    (hs : Inv O h s) {ref : Int} {o : Order} {nano nano' : Int}
    (he : Ok O info h s (.submit ref o nano nano')) :
    Inv O h (next O info h s (.submit ref o nano nano')) := by
  obtain ⟨hinstr, hvol, hfit, hfresh, h0⟩ := he
  have hopen : Live.isOpen { ord := o } = true := by
    have : (0 : Int) ≠ o.vol := by omega
    simp [Live.isOpen, this]
  have hnew : s.orders.lookup ref = none := by
    cases hx : s.orders.lookup ref with
    | none => rfl
    | some x => exact absurd (hfresh ref x hx) (lt_irrefl ref)
  have hlive : ∀ buy ref' o', LiveOn (next O info h s (.submit ref o nano nano')) buy ref' o' ↔
      s.LiveOn buy ref' o' ∨ (ref' = ref ∧ o' = o ∧ decide (o.dir = .buy) = buy) := by
    intro buy ref' o'
    unfold LiveOn
    simp only [next, UMap.lookup_insert_ite]
    by_cases hr : ref' = ref
    · subst hr
      simp only [if_true, hnew, reduceCtorEq, false_and, exists_false, false_or, true_and]
      constructor
      · rintro ⟨x, hx, -, rfl, hd⟩
        cases hx
        exact ⟨rfl, hd⟩
      · rintro ⟨rfl, hd⟩
        exact ⟨_, rfl, hopen, rfl, hd⟩
    · simp [hr]
  refine ⟨?_, ?_, ?_⟩
  · intro buy n
    simp only [hlive]
    simp only [next]
    rw [side_onNew, side_check]
    split
    · rename_i hb
      rw [hO.mem_pushBack]
      · rw [hs.side buy n]
        constructor
        · rintro (rfl | ⟨ref', o', hl, rfl⟩)
          · exact ⟨ref, o, Or.inr ⟨rfl, rfl, hb.symm⟩, rfl⟩
          · exact ⟨ref', o', Or.inl hl, rfl⟩
        · rintro ⟨ref', o', hl | ⟨rfl, rfl, -⟩, rfl⟩
          · exact Or.inr ⟨ref', o', hl, rfl⟩
          · exact Or.inl rfl
      · -- every key in the treap is that of an earlier order
        intro m hm
        obtain ⟨ref', o', ⟨x, hx, -⟩, rfl⟩ := (hs.side buy m).mp hm
        simp only [node, toInt_of_fits hfit, toInt_of_fits (hs.orders ref' x hx).1]
        exact (hfresh ref' x hx).le
    · rename_i hb
      rw [hs.side buy n]
      constructor
      · rintro ⟨ref', o', hl, rfl⟩
        exact ⟨ref', o', Or.inl hl, rfl⟩
      · rintro ⟨ref', o', hl | ⟨-, -, hd⟩, rfl⟩
        · exact ⟨ref', o', hl, rfl⟩
        · exact absurd hd.symm hb
  · intro ref' x hx
    simp only [next, UMap.lookup_insert_ite] at hx
    split at hx
    · rename_i hr
      cases hx
      exact ⟨hr ▸ hfit, hinstr⟩
    · exact hs.orders ref' x hx
  · obtain ⟨r, ab, hr0, hbid, hask⟩ := check_zero hi h0
    obtain ⟨hi1, hi2⟩ := check_iff hO hs hbid hask ab o.dir o.off o.price o.vol nano
    intro ra oa rb ob ha hb
    rcases (hlive _ _ _).mp ha with ha' | ⟨-, rfl, hda⟩ <;>
      rcases (hlive _ _ _).mp hb with hb' | ⟨-, rfl, hdb⟩
    · exact hs.noCross ra oa rb ob ha' hb'
    · by_contra hlt
      have := hi2.mpr ⟨of_decide_eq_false hdb, ra, oa, ha', not_lt.mp hlt⟩
      rw [hr0] at this
      cases this
    · by_contra hlt
      have := hi1.mpr ⟨of_decide_eq_true hda, rb, ob, hb', not_lt.mp hlt⟩
      rw [hr0] at this
      cases this
    · rw [hda] at hdb
      cases hdb

/-- An order that a return leaves live was live, and the return does not take it
from its treap. -/
theorem isOpen_returned_iff {x : Live} {t : OrderTrack} {m : RtnMsg} (hx : x.Accepts t m) :
    (x.returned m).isOpen = true ↔ x.isOpen = true ∧ ¬ Leaves t m := by
  have hn := Live.isOpen_returned hx
  have hc : m.msgType.has .canceled = hasAny m.msgType AccBase.cxlMask := by
    rw [AccBase.hasAny_cxlMask hx.types, Status.has_canceled hx.types]
  unfold Leaves
  rw [hc]
  have hfull : t.vol = t.volTraded ↔ t.volTraded = t.vol := eq_comm
  simp only [hfull] at hn
  by_cases h1 : (x.returned m).isOpen = true <;> by_cases h2 : x.isOpen = true <;>
    by_cases h3 : hasAny m.msgType AccBase.cxlMask = true <;>
    by_cases h4 : m.msgType.has .execution = true ∧ t.volTraded = t.vol <;>
    simp only [h1, h2, h3, h4, if_true, if_false, Bool.false_eq_true, and_self] at hn ⊢ <;>
    first | omega | simp

theorem inv_rtn (hO : O.Lawful) {s : Desk τ} (hs : Inv O h s) {t : OrderTrack} {m : RtnMsg}
    (he : Ok O info h s (.rtn t m)) : Inv O h (next O info h s (.rtn t m)) := by
  obtain ⟨x, hx, hacc⟩ := he
  have ht := hacc.tracks
  obtain ⟨hfit, hinstr⟩ := hs.orders _ x hx
  have hiff := isOpen_returned_iff hacc
  have hlive : ∀ buy ref o, LiveOn (next O info h s (.rtn t m)) buy ref o ↔
      s.LiveOn buy ref o ∧ ¬ (Leaves t m ∧ ref = t.orderRef) := by
    intro buy ref o
    unfold LiveOn
    simp only [next, hx, UMap.lookup_insert_ite]
    by_cases hr : ref = t.orderRef
    · subst hr
      simp only [if_true, hx, Option.some.injEq, exists_eq_left', hiff, and_true,
        show (x.returned m).ord = x.ord from rfl]
      tauto
    · simp [hr]
  refine ⟨?_, ?_, ?_⟩
  · intro buy n
    simp only [hlive]
    simp only [next]
    rw [mem_side_onRtn hO (ht.instrHash.trans hinstr), hs.side buy n]
    constructor
    · rintro ⟨⟨ref, o, hl, rfl⟩, hno⟩
      refine ⟨ref, o, ⟨hl, ?_⟩, rfl⟩
      rintro ⟨hleave, rfl⟩
      obtain ⟨y, hy, -, rfl, hd⟩ := hl
      rw [hx, Option.some.injEq] at hy
      subst hy
      exact hno ⟨by rw [ht.dir, hd], hleave, rfl⟩
    · rintro ⟨ref, o, ⟨hl, hno⟩, rfl⟩
      refine ⟨⟨ref, o, hl, rfl⟩, ?_⟩
      rintro ⟨-, hleave, hkey⟩
      obtain ⟨y, hy, -⟩ := hl
      simp only [node, toInt_of_fits hfit, toInt_of_fits (hs.orders ref y hy).1] at hkey
      exact hno ⟨hleave, hkey⟩
  · intro ref y hy
    simp only [next, hx, UMap.lookup_insert_ite] at hy
    split at hy
    · rename_i hr
      cases hy
      exact ⟨hr ▸ hfit, hinstr⟩
    · exact hs.orders ref y hy
  · intro ra oa rb ob ha hb
    exact hs.noCross ra oa rb ob ((hlive _ _ _).mp ha).1 ((hlive _ _ _).mp hb).1

theorem inv_next (hO : O.Lawful) {i : InstrumentInfo} (hi : info.find h = some i) (s : Desk τ)
    (e : DeskEvent) (hs : Inv O h s) (he : Ok O info h s e) : Inv O h (next O info h s e) := by
  cases e with
  | check dir off px vol nano => exact hs.congr fun buy => side_check dir off px vol nano h buy
  | submit ref o nano nano' => exact inv_submit hO hi hs he
  | rtn t m => exact inv_rtn hO hs he
  | tickPx px => exact hs.congr fun _ => rfl

/-- **No self-trade.** In every run on an instrument the self-trade answers of
its record mean a live order of the other side that would be crossed, and no
live buy order crosses a live sell order. -/
theorem noSelfTrade_of_run (hO : O.Lawful) {i : InstrumentInfo} (hi : info.find h = some i)
    {s : Desk τ} (hs : (sys O info h).Reachable s) :
    s.NoCross ∧ ∀ ab dir off px vol nano,
      ((s.top.riskInstrAt O h).check O ab dir off px vol nano = -230 ↔
        dir = .buy ∧ ∃ ref o, s.LiveOn false ref o ∧ o.price ≤ px) ∧
      ((s.top.riskInstrAt O h).check O ab dir off px vol nano = -231 ↔
        dir ≠ .buy ∧ ∃ ref o, s.LiveOn true ref o ∧ px ≤ o.price) := by
  have hinv := (sys O info h).invariant (inv_start hO) (inv_next hO hi) hs
  exact ⟨hinv.noCross, fun ab dir off px vol nano => check_iff hO hinv rfl rfl ab dir off px vol nano⟩

/-- A configuration with one limit of 100 everywhere. -/
def rbConf : RiskConf where
  allowedInstrument := .value ["All"]
  allowedMaxUnfilledOrderNumber := .value 100
  allowedOrderSize := .value fun k => if k = "default" then .value 100 else .missing
  intensityCycleOrderCount := .value fun k => if k = "default" then .value 100 else .missing
  intensityCycleTimeSpan := .value fun k => if k = "default" then .value 0 else .missing
  instrLongVolume := .value fun k => if k = "default" then .value 100 else .missing
  instrShortVolume := .value fun k => if k = "default" then .value 100 else .missing
  instrNetVolume := .value fun k => if k = "default" then .value 100 else .missing
  prdLongVolume := .value fun k => if k = "default" then .value 100 else .missing
  prdShortVolume := .value fun k => if k = "default" then .value 100 else .missing
  prdNetVolume := .value fun k => if k = "default" then .value 100 else .missing
  accLongAmount := .value 10000
  accShortAmount := .value 10000
  accNetAmount := .value 10000

/-- A bid, a refused ask, an ask above, a partial fill and a cancel of the bid,
an ask at its price. -/
def rbRun : List DeskEvent :=
  [.submit 1 ⟨1, .buy, .opn, 10, 2⟩ 0 0, .check .sell .opn 9 1 1, .submit 2 ⟨1, .sell, .opn, 11, 1⟩ 2 2,
    .rtn
      { localId := 1, orderRef := 1, instrHash := 1, dir := .buy, off := .opn, price := 10, vol := 2
        volTraded := 1 }
      { msgType := ods .execution, price := 10, vol := 1 },
    .rtn
      { localId := 1, orderRef := 1, instrHash := 1, dir := .buy, off := .opn, price := 10, vol := 2
        volTraded := 1 }
      { msgType := ods .canceled, vol := 1 },
    .submit 3 ⟨1, .sell, .opn, 10, 1⟩ 3 3]

theorem noSelfTrade_rb :
    let O := listOps TreapNode.orderRef TreapNode.priorityOrder
    let s := (sys O TradeBaseInfo.rb 1).exec
      ⟨{ jConf := rbConf, riskAcc := (RiskAcc.init rbConf {}).1 }, ∅⟩ rbRun
    s.NoCross ∧ ∀ ab dir off px vol nano,
      ((s.top.riskInstrAt O 1).check O ab dir off px vol nano = -230 ↔
        dir = .buy ∧ ∃ ref o, s.LiveOn false ref o ∧ o.price ≤ px) ∧
      ((s.top.riskInstrAt O 1).check O ab dir off px vol nano = -231 ↔
        dir ≠ .buy ∧ ∃ ref o, s.LiveOn true ref o ∧ px ≤ o.price) := by
  refine noSelfTrade_of_run (listOps_lawful _ _) (i := TradeBaseInfo.rb1810) rfl
    ⟨_, rbRun, ⟨rfl, rfl⟩, ?_, rfl⟩
  refine ⟨⟨rfl, by decide, by decide, fun _ _ hx => (by cases hx), ?_⟩, trivial,
    ⟨rfl, by decide, by decide, fun ref x hx => ?_, ?_⟩,
    ⟨_, rfl, ⟨⟨rfl, rfl, rfl, rfl, rfl⟩, ⟨[.execution], rfl⟩, ?_, ?_⟩⟩,
    ⟨_, rfl, ⟨⟨rfl, rfl, rfl, rfl, rfl⟩, ⟨[.canceled], rfl⟩, ?_, ?_⟩⟩,
    ⟨rfl, by decide, by decide, fun ref x hx => ?_, ?_⟩, trivial⟩
  case refine_2 =>
    have hk : ∀ k ∈ ([1] : List Int), k < 2 := by decide
    exact hk ref (UMap.mem_keys_of_lookup hx)
  case refine_8 =>
    have hk : ∀ k ∈ ([1, 2] : List Int), k < 3 := by decide
    exact hk ref (UMap.mem_keys_of_lookup hx)
  all_goals decide +kernel

end Desk

end NatFramework.Risk
