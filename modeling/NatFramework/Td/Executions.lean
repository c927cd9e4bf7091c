import Mathlib.Algebra.BigOperators.Group.List.Basic
import Mathlib.Data.Rat.Cast.Defs
import NatFramework.Td.Ees

/-!
# Executions are counted through a filter that forgets

`OnRtnTrade` and `OnOrderExecution` count an execution unless the filter of the
order's slot remembers its id. The ids remembered are a window of four
(`IdRing`), CTP's are texts converted by `strtoll` with base 0, and a new order
finds in its slot the window and the traded amount of the order before it.

* `Counts`: what one delivery does, for both vendors (`ctp_counts`, `ees_counts`).
* `counts_run`: a sequence of deliveries counts those the window lets through.
* `countedIff_of_inserted`: when this is every execution once.
-/
namespace NatFramework.Td

open Lib

/-- What an engine takes from the record of an execution. -/
structure Delivery (δ : Type) where
  apply : δ → Engine → Engine
  key : δ → Int
  price : δ → ℚ
  volume : δ → Int

def ctpTrade : Delivery TradeField where
  apply d e := e.onRtnTrade d
  key d := CString.strtoll d.tradeId
  price := TradeField.price
  volume := TradeField.volume

def eesExecution : Delivery OrderExecutionField where
  apply d e := e.onOrderExecution d
  key := OrderExecutionField.executionId
  price := OrderExecutionField.price
  volume := OrderExecutionField.quantity

namespace Engine

/-- The ids the filter of an order's slot remembers, oldest first. -/
def remembered (e : Engine) (id : Int) : List Int := (e.otidfilter (slot id)).contents

/-- The execution messages written and passed to the risk account between two states. -/
def fills (e e' : Engine) : List RtnMsg :=
  let written := (e'.writer.frames.drop e.writer.frames.length).map (·.rtnMsg)
  ((e'.passed.drop e.passed.length).map (·.msg)).filter fun m =>
    m.msgType.has .execution ∧ m ∈ written

/-- The track of an order just inserted, whose id is in the range. -/
structure Inserted (e : Engine) (id : Int) : Prop where
  volTraded : (e.getRequestTrack id).volTraded = 0
  from_ : (e.getRequestTrack id).from_ ≠ 0
  range : e.checkRequestId id = true

theorem testOtId_iff (e : Engine) (id mid : Int) :
    (e.testOtId id mid).2 = true ↔ mid ∈ e.remembered id :=
  IdRing.test_iff _ mid

theorem testOtId_of_mem {e : Engine} {id mid : Int} (h : mid ∈ e.remembered id) :
    e.testOtId id mid = (e, true) := by
  have h2 := (testOtId_iff e id mid).mpr h
  have h1 : (e.testOtId id mid).1 = e := by
    unfold testOtId IdRing.test at h2 ⊢
    dsimp only at h2 ⊢
    split
    · simp
    · rename_i hn
      rw [if_neg hn] at h2
      cases h2
  exact Prod.ext h1 h2

theorem testOtId_of_not_mem {e : Engine} {id mid : Int} (h : mid ∉ e.remembered id) :
    e.testOtId id mid = ((e.testOtId id mid).1, false) := by
  rw [← testOtId_iff, Bool.not_eq_true] at h
  exact Prod.ext rfl h

theorem remembered_test {e : Engine} {id mid : Int} (h : mid ∉ e.remembered id) :
    (e.testOtId id mid).1.remembered id = latest 4 (e.remembered id ++ [mid]) := by
  have hc := IdRing.contents_test (by decide) (e.otidfilter (slot id)) mid
  rw [if_neg (show mid ∉ (e.otidfilter (slot id)).contents from h)] at hc
  simpa [remembered, testOtId] using hc

theorem fills_post {e : Engine} {id : Int} {t : OrderTrack} {p : IOOrderRtn}
    (hp : p.rtnMsg.msgType = ods .execution) : e.fills (e.post id t p) = [p.rtnMsg] := by
  have hx : Status.has (ods .execution) .execution = true := by decide
  simp [fills, post, commit, Writer.commit, setRequestTrack, engineOnRtn, hp, hx]

end Engine

open Engine

/-! ## One delivery -/

section Counts

variable {δ : Type} (D : Delivery δ) (id : Int) (d : δ) (e : Engine)

/-- What a delivery does: nothing if its id is remembered, else it is counted
and its id remembered. -/
structure Counts : Prop where
  stopped : D.key d ∈ e.remembered id → D.apply d e = e
  volTraded : D.key d ∉ e.remembered id → ((D.apply d e).getRequestTrack id).volTraded =
    (e.getRequestTrack id).volTraded + D.volume d
  amountTraded : D.key d ∉ e.remembered id → ((D.apply d e).getRequestTrack id).amountTraded =
    (e.getRequestTrack id).amountTraded + D.price d * D.volume d
  remembered : D.key d ∉ e.remembered id →
    (D.apply d e).remembered id = latest 4 (e.remembered id ++ [D.key d])
  message : D.key d ∉ e.remembered id → (e.fills (D.apply d e)).length = 1

variable {D id d e}

/-- A delivery that ends in `post` unless its id is remembered. -/
theorem Counts.of_post (hs : D.key d ∈ e.remembered id → D.apply d e = e)
    (hp : D.key d ∉ e.remembered id → ∃ t p, p.rtnMsg.msgType = ods .execution ∧
      D.apply d e = (e.testOtId id (D.key d)).1.post id t p ∧
      t.volTraded = (e.getRequestTrack id).volTraded + D.volume d ∧
      t.amountTraded = (e.getRequestTrack id).amountTraded + D.price d * D.volume d) :
    Counts D id d e where
  stopped := hs
  volTraded hk := by
    obtain ⟨t, p, -, he, hv, -⟩ := hp hk
    rw [he, getRequestTrack_post, hv]
  amountTraded hk := by
    obtain ⟨t, p, -, he, -, ha⟩ := hp hk
    rw [he, getRequestTrack_post, ha]
  remembered hk := by
    obtain ⟨t, p, -, he, -⟩ := hp hk
    rw [he, Engine.remembered, otidfilter_post]
    exact remembered_test hk
  message hk := by
    obtain ⟨t, p, hm, he, -⟩ := hp hk
    have hf : e.fills (D.apply d e) = [p.rtnMsg] := by
      rw [he]
      exact fills_post (e := (e.testOtId id (D.key d)).1) hm
    rw [hf, List.length_singleton]

end Counts

/-! ### CTP -/

/-- A trade of the order passes the checks of `OnRtnTrade`. -/
structure CtpReady (id user : Int) (e : Engine) : Prop where
  from_ : (e.getRequestTrack id).from_ ≠ 0
  range : e.checkRequestId id = true
  user : e.intUserId = user

theorem filled_volTraded (v : Int) (px : ℚ) (t : OrderTrack) :
    (filled v px t).volTraded = t.volTraded + v := by
  unfold filled
  dsimp only
  split <;> rfl

theorem filled_amountTraded (v : Int) (px : ℚ) (t : OrderTrack) :
    (filled v px t).amountTraded = t.amountTraded + px * v := by
  unfold filled
  dsimp only
  split <;> rfl

theorem filled_from (v : Int) (px : ℚ) (t : OrderTrack) : (filled v px t).from_ = t.from_ := by
  unfold filled
  dsimp only
  split <;> rfl

section Ctp

variable {id user : Int} {e : Engine} {d : TradeField}

theorem onRtnTrade_of_mem (hid : CString.atoi d.orderRef = id)
    (hk : ctpTrade.key d ∈ e.remembered id) : e.onRtnTrade d = e := by
  subst hid
  unfold onRtnTrade
  dsimp only
  split
  · change CString.strtoll d.tradeId ∈ _ at hk
    rw [testOtId_of_mem hk]
  · rfl

theorem onRtnTrade_of_not_mem (h : CtpReady id user e) (hid : CString.atoi d.orderRef = id)
    (hu : d.userId = user) (hk : ctpTrade.key d ∉ e.remembered id) :
    ∃ p : IOOrderRtn, p.rtnMsg.msgType = ods .execution ∧
      e.onRtnTrade d = (e.testOtId id (ctpTrade.key d)).1.post id
        (filled d.volume d.price (e.getRequestTrack id)) p := by
  subst hid
  have hchk : e.chkUserId d.userId = true ∧ e.checkRequestId (CString.atoi d.orderRef) = true :=
    ⟨by simp [chkUserId, hu, h.user], h.range⟩
  unfold onRtnTrade
  dsimp only
  change CString.strtoll d.tradeId ∉ _ at hk
  rw [if_pos hchk, testOtId_of_not_mem hk]
  dsimp only
  split
  · exact ⟨_, rfl, rfl⟩
  · rename_i hf
    exact absurd h.from_ hf

theorem ctp_counts (h : CtpReady id user e) (hid : CString.atoi d.orderRef = id)
    (hu : d.userId = user) : Counts ctpTrade id d e := by
  refine Counts.of_post (onRtnTrade_of_mem hid) fun hk => ?_
  obtain ⟨p, hp, he⟩ := onRtnTrade_of_not_mem h hid hu hk
  exact ⟨_, p, hp, he, filled_volTraded _ _ _, filled_amountTraded _ _ _⟩

theorem CtpReady.apply (h : CtpReady id user e) (hid : CString.atoi d.orderRef = id)
    (hu : d.userId = user) : CtpReady id user (ctpTrade.apply d e) := by
  change CtpReady id user (e.onRtnTrade d)
  by_cases hk : ctpTrade.key d ∈ e.remembered id
  · rwa [onRtnTrade_of_mem hid hk]
  · obtain ⟨p, -, he⟩ := onRtnTrade_of_not_mem h hid hu hk
    rw [he]
    refine ⟨?_, h.range, h.user⟩
    rw [getRequestTrack_post, filled_from]
    exact h.from_

end Ctp

/-! ### EES -/

section Ees

variable {id : Int} {e : Engine} {d : OrderExecutionField}

theorem onOrderExecution_of_mem (hid : d.clientOrderToken = id)
    (hk : eesExecution.key d ∈ e.remembered id) : e.onOrderExecution d = e := by
  subst hid
  unfold onOrderExecution
  dsimp only
  split
  · change d.executionId ∈ _ at hk
    rw [testOtId_of_mem hk]
  · rfl

theorem onOrderExecution_of_not_mem (h : e.checkRequestId id = true) (hid : d.clientOrderToken = id)
    (hk : eesExecution.key d ∉ e.remembered id) :
    ∃ p : IOOrderRtn, p.rtnMsg.msgType = ods .execution ∧
      e.onOrderExecution d = (e.testOtId id (eesExecution.key d)).1.post id
        { filled d.quantity d.price (e.getRequestTrack id) with
          frontId := d.marketOrderToken, sessionId := 1 } p := by
  subst hid
  unfold onOrderExecution
  dsimp only
  change d.executionId ∉ _ at hk
  rw [if_pos h, testOtId_of_not_mem hk]
  exact ⟨_, rfl, rfl⟩

theorem ees_counts (h : e.checkRequestId id = true) (hid : d.clientOrderToken = id) :
    Counts eesExecution id d e := by
  refine Counts.of_post (onOrderExecution_of_mem hid) fun hk => ?_
  obtain ⟨p, hp, he⟩ := onOrderExecution_of_not_mem h hid hk
  exact ⟨_, p, hp, he, filled_volTraded _ _ _, filled_amountTraded _ _ _⟩

theorem range_onOrderExecution (h : e.checkRequestId id = true) (hid : d.clientOrderToken = id) :
    (eesExecution.apply d e).checkRequestId id = true := by
  change (e.onOrderExecution d).checkRequestId id = true
  by_cases hk : eesExecution.key d ∈ e.remembered id
  · rwa [onOrderExecution_of_mem hid hk]
  · obtain ⟨p, -, he⟩ := onOrderExecution_of_not_mem h hid hk
    rw [he]
    exact h

end Ees

/-! ## Sequences of deliveries -/

section Run

variable {δ : Type} [DecidableEq δ] (D : Delivery δ) (id : Int) (e : Engine)

namespace Delivery

def run (ds : List δ) : Engine := ds.foldl (fun e d => D.apply d e) e

/-- The messages that deliveries of `x` have written and passed. -/
def messages (x : δ) : Engine → List δ → Nat
  | _, [] => 0
  | e, d :: ds =>
    (if d = x then (e.fills (D.apply d e)).length else 0) + messages x (D.apply d e) ds

end Delivery

/-- Each of the different executions of a sequence of deliveries is counted
exactly once. -/
structure CountedOnce (ds : List δ) : Prop where
  volTraded : ((D.run e ds).getRequestTrack id).volTraded = (ds.dedup.map D.volume).sum
  amountTraded : ((D.run e ds).getRequestTrack id).amountTraded =
    (ds.dedup.map fun d => D.price d * D.volume d).sum
  message : ∀ d ∈ ds, D.messages d e ds = 1

/-- When each execution is counted once: the slot's traded amount is 0, and the
window lets through every execution once; at every moment of the sequence, the
deliveries whose id is in the window are the repetitions. -/
structure CountedIff (ds : List δ) : Prop where
  last : CountedOnce D id e ds ↔ (e.getRequestTrack id).amountTraded = 0 ∧
    IdRing.ExactlyOnce 4 D.key (e.remembered id) ds
  throughout : (∀ pre, pre <+: ds → CountedOnce D id e pre) ↔
    (e.getRequestTrack id).amountTraded = 0 ∧
      IdRing.CopiesInWindow 4 D.key (e.remembered id) ds

variable {D id e}

/-- A sequence of deliveries counts those the window lets through. -/
theorem counts_run {R : Engine → Prop} {P : δ → Prop}
    (hc : ∀ e d, R e → P d → Counts D id d e) (hR : ∀ e d, R e → P d → R (D.apply d e)) (he : R e)
    {ds : List δ} (hds : ∀ d ∈ ds, P d) :
    ((D.run e ds).getRequestTrack id).volTraded = (e.getRequestTrack id).volTraded +
        ((IdRing.passed 4 D.key (e.remembered id) ds).map D.volume).sum ∧
      ((D.run e ds).getRequestTrack id).amountTraded = (e.getRequestTrack id).amountTraded +
        ((IdRing.passed 4 D.key (e.remembered id) ds).map fun d => D.price d * D.volume d).sum ∧
      ∀ x, D.messages x e ds = (IdRing.passed 4 D.key (e.remembered id) ds).count x := by
  induction ds generalizing e with
  | nil => simp [Delivery.run, Delivery.messages, IdRing.passed]
  | cons d ds ih =>
    have hd := hc e d he (hds d List.mem_cons_self)
    have hrun : D.run e (d :: ds) = D.run (D.apply d e) ds := rfl
    obtain ⟨h1, h2, h3⟩ :=
      ih (hR e d he (hds d List.mem_cons_self)) fun x hx => hds x (List.mem_cons_of_mem d hx)
    rw [hrun, IdRing.passed]
    by_cases hk : D.key d ∈ e.remembered id
    · rw [if_pos hk]
      rw [hd.stopped hk] at h1 h2 h3 ⊢
      refine ⟨h1, h2, fun x => ?_⟩
      rw [Delivery.messages, hd.stopped hk, h3 x]
      simp [fills]
    · rw [if_neg hk]
      rw [hd.remembered hk] at h1 h2 h3
      refine ⟨?_, ?_, fun x => ?_⟩
      · rw [h1, hd.volTraded hk, List.map_cons, List.sum_cons, add_assoc]
      · rw [h2, hd.amountTraded hk, List.map_cons, List.sum_cons, add_assoc]
      · rw [Delivery.messages, h3 x, hd.message hk, List.count_cons, Nat.add_comm]
        simp

theorem countedIff_of_step {R : Engine → Prop} {P : δ → Prop}
    (hc : ∀ e d, R e → P d → Counts D id d e) (hR : ∀ e d, R e → P d → R (D.apply d e)) (he : R e)
    (h0 : (e.getRequestTrack id).volTraded = 0) {ds : List δ} (hds : ∀ d ∈ ds, P d) :
    CountedIff D id e ds := by
  have hlast : ∀ ds : List δ, (∀ d ∈ ds, P d) → (CountedOnce D id e ds ↔
      (e.getRequestTrack id).amountTraded = 0 ∧
        IdRing.ExactlyOnce 4 D.key (e.remembered id) ds) := by
    intro ds hds
    obtain ⟨hv, ha, hm⟩ := counts_run hc hR he hds
    rw [h0, zero_add] at hv
    constructor
    · intro h
      have hx : IdRing.ExactlyOnce 4 D.key (e.remembered id) ds :=
        IdRing.exactlyOnce_iff.mpr fun d hd => (hm d).symm.trans (h.message d hd)
      refine ⟨?_, hx⟩
      rw [h.amountTraded, ((IdRing.passed_perm hx).map _).sum_eq] at ha
      simpa using ha.symm
    · rintro ⟨ha0, hx⟩
      have hp := IdRing.passed_perm hx
      refine ⟨hv.trans (hp.map _).sum_eq, ?_, fun d hd => ?_⟩
      · rw [ha, ha0, zero_add, (hp.map _).sum_eq]
      · rw [hm d]
        exact IdRing.exactlyOnce_iff.mp hx d hd
  have hw : (e.remembered id).length ≤ 4 := by
    rw [remembered, IdRing.length_contents]
    exact Nat.min_le_right _ _
  refine ⟨hlast ds hds, ?_⟩
  have hpre : ∀ pre, pre <+: ds → ∀ d ∈ pre, P d := fun pre hp d hd => hds d (hp.subset hd)
  rw [← IdRing.exactlyOnce_prefixes_iff hw]
  constructor
  · intro h
    exact ⟨((hlast ds hds).mp (h ds List.prefix_rfl)).1,
      fun pre hp => ((hlast pre (hpre pre hp)).mp (h pre hp)).2⟩
  · rintro ⟨ha0, h⟩ pre hp
    exact (hlast pre (hpre pre hp)).mpr ⟨ha0, h pre hp⟩

end Run

/-- An order for ten lots, sent as request 1 into a slot never used before. -/
def sentTen : Engine :=
  ({ accountUnits := [⟨1, 1⟩] } : Engine).reqOrderInsert
    { from_ := 7, localId := 1, accIdx := 0, instrHash := 1, instr := "rb1810", price := 100, vol := 10
      dir := .buy, off := .opn, stgId := 1 } 0 0

def oneLot (tradeId : String) : TradeField :=
  { userId := 0, orderRef := "1", tradeId, instrumentId := "rb1810", price := 100, volume := 1
    direction := .buy, offsetFlag := .opn }

def oneLotEes (executionId : Int) : OrderExecutionField :=
  { clientOrderToken := 1, marketOrderToken := 9, executionId, quantity := 1, price := 100 }

theorem inserted_sentTen : sentTen.Inserted 1 := ⟨rfl, by decide, by decide⟩

end NatFramework.Td
