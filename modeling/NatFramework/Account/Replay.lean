import NatFramework.Account.Pending
import NatFramework.Account.Postings

/-!
# Rebuilding the account from order tracks

`td/ITDHelper` keeps one track per order; after a restart `CStrategy::loadConfig`
hands every track to `AccBase::onOrderTrack`. A live account has booked the same
orders piece by piece: each fill at its own price, between the fills and the
closing returns of other orders.

* `trackEffect`, `rtnEffect`: what replaying a track and booking a return post.
* `Sent.effect_returned`: a return posts what it adds to the effect of its
  order; `Sent.effect_settled`: in the end that is what its track posts.
* `replay_of_run`: replaying the tracks in any order gives the live account.
-/
namespace NatFramework.Account

open Lib AccBase Posting

/-! ## Tracks and their effects -/

/-- The effect of replaying a track. -/
def trackEffect (vm : Int) (t : OrderTrack) : Effect :=
  (if hasAny t.status (ods .send ||| ods .tdSend) then .new vm t.dir t.off t.price t.vol else 0) +
    (if t.status.has .closed && t.vol != t.volTraded then
      .cxl vm t.dir t.off t.price (t.vol - t.volTraded) else 0) +
    if t.status.has .execution then
      .trd vm t.dir t.off t.price (t.vol = t.volTraded) t.volTraded
        ((if 0 = t.volTraded then 0 else t.amountTraded / t.volTraded) * t.volTraded)
    else 0

theorem does_orderTrack (vm : Int) (t : OrderTrack) :
    Does vm (orderTrackBooks t) (trackEffect vm t) :=
  ((Does.guard _ (does_onNew vm t.dir t.off t.price t.vol)).comp
    (Does.guard _ (does_onCxl vm t.dir t.off t.price (t.vol - t.volTraded)))).comp
      (Does.guard _ (does_onTrd vm t.dir t.off t.price t.vol t.volTraded _ t.volTraded))

/-- The effect of a return. -/
def rtnEffect (vm : Int) (t : OrderTrack) (r : RtnMsg) : Effect :=
  (if hasAny r.msgType cxlMask then .cxl vm t.dir t.off t.price r.vol else 0) +
    if r.msgType.has .execution then
      .trd vm t.dir t.off t.price (t.vol = t.volTraded) r.vol (r.price * r.vol) else 0

theorem does_rtn (vm : Int) (t : OrderTrack) (r : RtnMsg) :
    Does vm (rtnBooks t r) (rtnEffect vm t r) :=
  (Does.guard _ (does_onCxl vm t.dir t.off t.price r.vol)).comp
    (Does.guard _ (does_onTrd vm t.dir t.off t.price t.vol t.volTraded r.price r.vol))

namespace ITDHelper

/-- The track of a new order.
mirrors td/ITDHelper.cpp:22-42 -/
def sendOrder (o : Order) (instr : String) (accId stgId localId : Int) : OrderTrack :=
  { status := ods .send, instrHash := o.instrHash, instr, price := o.price, vol := o.vol, dir := o.dir
    off := o.off, stgId, accId, localId }

/-- mirrors td/ITDHelper.cpp:44-58 -/
def deleteOrder (t : OrderTrack) : OrderTrack :=
  if t.orderRef ≥ 0 ∧
      hasAny t.status (ods .tdSend ||| ods .execution ||| ods .accept ||| ods .marketAccept) ∧
      ¬ t.status.has .closed then
    { t with status := t.status ||| ods .cxling }
  else t

/-- What a return does to the track it belongs to.
mirrors td/ITDHelper.cpp:65-77 -/
def getRtn (r : RtnMsg) (t : OrderTrack) : OrderTrack :=
  let t :=
    { t with
      status := t.status ||| r.msgType, orderRef := r.orderRef, frontId := r.frontId
      sessionId := r.sessionId }
  if ods .execution = r.msgType then
    let t :=
      { t with volTraded := t.volTraded + r.vol, amountTraded := t.amountTraded + r.vol * r.price }
    if t.volTraded ≥ t.vol then { t with status := t.status ||| ods .closed } else t
  else t

end ITDHelper

/-- A track, and the volume of the closing return if one has come. -/
structure Sent where
  track : OrderTrack
  closing : Option Int := none
  deriving DecidableEq, Repr

namespace Sent

def returned (r : RtnMsg) (x : Sent) : Sent where
  track := ITDHelper.getRtn r x.track
  closing := if r.msgType.has .closed then some r.vol else x.closing

def deleted (x : Sent) : Sent := { x with track := ITDHelper.deleteOrder x.track }

/-- What the order has posted so far. -/
def effect (vm : Int) (x : Sent) : Effect :=
  .new vm x.track.dir x.track.off x.track.price x.track.vol +
    x.closing.elim 0 (.cxl vm x.track.dir x.track.off x.track.price) +
    if x.track.status.has .execution then
      .trd vm x.track.dir x.track.off x.track.price (x.track.vol = x.track.volTraded)
        x.track.volTraded x.track.amountTraded
    else 0

/-- A return that belongs to the order: fills within its volume, and one closing
return. Other than for a fill, the bits of a message may be any. -/
structure Accepts (x : Sent) (r : RtnMsg) : Prop where
  types : r.msgType.FromTypes
  fill : r.msgType.has .execution → r.msgType = ods .execution ∧ 1 ≤ r.vol ∧
    x.track.volTraded + r.vol ≤ x.track.vol
  close : r.msgType.has .closed → x.closing = none

/-- The part of `Accepts` that lets an order be closed more than once. -/
structure Fits (x : Sent) (r : RtnMsg) : Prop where
  types : r.msgType.FromTypes
  fill : r.msgType.has .execution → r.msgType = ods .execution ∧ 1 ≤ r.vol ∧
    x.track.volTraded + r.vol ≤ x.track.vol

theorem Accepts.fits {x : Sent} {r : RtnMsg} (h : x.Accepts r) : x.Fits r := ⟨h.types, h.fill⟩

/-- What the status says about the order. -/
structure Inv (x : Sent) : Prop where
  sent : x.track.status.has .send
  vol : 1 ≤ x.track.vol
  traded_le : x.track.volTraded ≤ x.track.vol
  executed : x.track.status.has .execution → 1 ≤ x.track.volTraded
  unexecuted : ¬ x.track.status.has .execution → x.track.volTraded = 0 ∧ x.track.amountTraded = 0
  closed : x.track.status.has .closed ↔ x.closing.isSome ∨ x.track.volTraded = x.track.vol

/-- The part of `Inv` that does not depend on who has sent the order. -/
structure Sound (x : Sent) : Prop where
  vol : 1 ≤ x.track.vol
  traded_le : x.track.volTraded ≤ x.track.vol
  executed : x.track.status.has .execution → 1 ≤ x.track.volTraded
  unexecuted : ¬ x.track.status.has .execution → x.track.volTraded = 0 ∧ x.track.amountTraded = 0
  closed : x.track.status.has .closed ↔ x.closing.isSome ∨ x.track.volTraded = x.track.vol

theorem inv_iff (x : Sent) : x.Inv ↔ x.track.status.has .send ∧ x.Sound := by
  constructor
  · rintro ⟨h1, h2, h3, h4, h5, h6⟩
    exact ⟨h1, h2, h3, h4, h5, h6⟩
  · rintro ⟨h1, h2, h3, h4, h5, h6⟩
    exact ⟨h1, h2, h3, h4, h5, h6⟩

/-- The closing return carried what the fills, also the later ones, left over. -/
def Settled (x : Sent) : Prop :=
  ∀ c ∈ x.closing, x.track.volTraded < x.track.vol ∧ c = x.track.vol - x.track.volTraded

instance (x : Sent) : Decidable x.Settled := by unfold Settled; infer_instance

variable {x : Sent} {r : RtnMsg}

/-- A return that is no fill changes no number of the track. -/
theorem getRtn_other (h : ¬ r.msgType.has .execution) (t : OrderTrack) :
    ITDHelper.getRtn r t =
      { t with
        status := t.status ||| r.msgType, orderRef := r.orderRef, frontId := r.frontId
        sessionId := r.sessionId } := by
  have hne : ods .execution ≠ r.msgType := by
    intro he
    rw [← he] at h
    exact h (by decide)
  simp [ITDHelper.getRtn, hne]

/-- A fill advances the two totals; the one that reaches the volume closes. -/
theorem getRtn_fill (h : r.msgType = ods .execution) (t : OrderTrack) :
    ITDHelper.getRtn r t =
      { t with
        status := t.status ||| ods .execution |||
          if t.volTraded + r.vol ≥ t.vol then ods .closed else 0
        orderRef := r.orderRef, frontId := r.frontId, sessionId := r.sessionId
        volTraded := t.volTraded + r.vol, amountTraded := t.amountTraded + r.vol * r.price } := by
  unfold ITDHelper.getRtn
  simp only [h, if_true]
  split
  · rfl
  · simp

/-- No return clears a bit of the status. -/
theorem has_returned {e : OrderRtnType} (h : x.track.status.has e) :
    (x.returned r).track.status.has e := by
  have hor : ∀ s : Status, Status.has (x.track.status ||| s) e = true := by
    intro s
    rw [Status.has, hasAny.or_left, Bool.or_eq_true]
    exact Or.inl h
  simp only [returned, ITDHelper.getRtn]
  split
  · split
    · rw [Status.has, hasAny.or_left, Bool.or_eq_true]
      exact Or.inl (hor _)
    · exact hor _
  · exact hor _

theorem sound_returned (hx : x.Sound) (hr : x.Fits r) : (x.returned r).Sound := by
  obtain ⟨h2, h3, h4, h5, h6⟩ := hx
  by_cases he : r.msgType.has .execution
  · obtain ⟨hm, hpos, hle⟩ := hr.fill he
    have hnc : r.msgType.has .closed = false := by rw [hm]; decide
    have hee : Status.has (ods .execution) .execution = true := by decide
    have hec : Status.has (ods .execution) .closed = false := by decide
    have hcc : Status.has (ods .closed) .closed = true := by decide
    have h0c : Status.has 0 .closed = false := by decide
    have ht := getRtn_fill hm x.track
    have hcl : (x.returned r).closing = x.closing := by simp [returned, hnc]
    refine ⟨?_, ?_, ?_, ?_, ?_⟩
    · simpa only [returned, ht] using h2
    · simpa only [returned, ht] using hle
    · intro _
      simp only [returned, ht]
      by_cases hx' : x.track.status.has .execution
      · have := h4 hx'
        omega
      · have := (h5 hx').1
        omega
    · intro hn
      simp only [returned, ht, Status.has, hasAny.or_left] at hn
      simp only [Status.has] at hee
      simp [hee] at hn
    · rw [hcl]
      simp only [returned, ht, Status.has, hasAny.or_left, Bool.or_eq_true] at h6 hec hcc h0c ⊢
      rw [h6, hec]
      by_cases hfull : x.track.volTraded + r.vol ≥ x.track.vol
      · rw [if_pos hfull, hcc]
        have : x.track.volTraded + r.vol = x.track.vol := by omega
        simp [this]
      · rw [if_neg hfull, h0c]
        have hn1 : x.track.volTraded ≠ x.track.vol := by omega
        have hn2 : x.track.volTraded + r.vol ≠ x.track.vol := by omega
        simp [hn1, hn2]
  · have ht := getRtn_other he x.track
    have hbit : ∀ e, (x.returned r).track.status.has e =
        (x.track.status.has e || r.msgType.has e) := by
      intro e
      simp only [returned, ht, Status.has, hasAny.or_left]
    have hvt : (x.returned r).track.volTraded = x.track.volTraded := by simp only [returned, ht]
    have hv : (x.returned r).track.vol = x.track.vol := by simp only [returned, ht]
    have hexec : (x.returned r).track.status.has .execution = x.track.status.has .execution := by
      rw [hbit]
      simp [he]
    refine ⟨?_, ?_, ?_, ?_, ?_⟩
    · rwa [hv]
    · rwa [hv, hvt]
    · rw [hexec, hvt]
      exact h4
    · rw [hexec, hvt, show (x.returned r).track.amountTraded = x.track.amountTraded by
        simp only [returned, ht]]
      exact h5
    · rw [hbit, Bool.or_eq_true, h6, hvt, hv]
      by_cases hc : r.msgType.has .closed <;> simp [returned, hc]

theorem inv_returned (hx : x.Inv) (hr : x.Accepts r) : (x.returned r).Inv := by
  obtain ⟨h1, hs⟩ := (inv_iff x).mp hx
  exact (inv_iff _).mpr ⟨has_returned h1, sound_returned hs hr.fits⟩

theorem effect_returned (vm : Int) (hx : x.Sound) (hr : x.Accepts r) :
    (x.returned r).effect vm = x.effect vm + rtnEffect vm (x.returned r).track r := by
  unfold rtnEffect
  rw [hasAny_cxlMask hr.types]
  by_cases he : r.msgType.has .execution
  · obtain ⟨hm, hpos, hle⟩ := hr.fill he
    have hnc : r.msgType.has .closed = false := by rw [hm]; decide
    have hee : Status.has (ods .execution) .execution = true := by decide
    have ht := getRtn_fill hm x.track
    have hexec : (x.returned r).track.status.has .execution = true := by
      simp only [returned, ht, Status.has, hasAny.or_left, Bool.or_eq_true] at hee ⊢
      exact Or.inl (Or.inr hee)
    have hlt : x.track.vol ≠ x.track.volTraded := by omega
    -- the fills before this one did not complete the order
    have hold : (if x.track.status.has .execution then
        Effect.trd vm x.track.dir x.track.off x.track.price (x.track.vol = x.track.volTraded)
          x.track.volTraded x.track.amountTraded else 0) =
        if x.track.status.has .execution then
          Effect.trd vm x.track.dir x.track.off x.track.price false x.track.volTraded
            x.track.amountTraded else 0 := by
      simp only [hlt, decide_false]
    simp only [effect, hexec, he, hnc, if_true, Bool.false_eq_true, if_false, zero_add, hold]
    simp only [returned, ht, hnc, Bool.false_eq_true, if_false]
    rw [mul_comm (r.price : ℚ), add_assoc, add_assoc, add_assoc]
    congr 2
    split
    · rw [Effect.trd_add]
    · rename_i hx'
      obtain ⟨h0, h0'⟩ := hx.unexecuted hx'
      rw [h0, h0', zero_add, zero_add, zero_add]
  · have ht := getRtn_other he x.track
    have hexec : (x.returned r).track.status.has .execution = x.track.status.has .execution := by
      simp only [returned, ht, Status.has, hasAny.or_left]
      simp only [Status.has] at he
      simp [he]
    simp only [effect, hexec, he, if_false, Bool.false_eq_true, add_zero]
    by_cases hc : r.msgType.has .closed
    · have hcl := hr.close hc
      simp only [returned, ht, hc, hcl, if_true, Option.elim_some, Option.elim_none, add_zero]
      abel
    · simp only [returned, ht, hc, if_false, Bool.false_eq_true, add_zero]

/-- A delete request adds one bit to the status. -/
theorem deleted_track (x : Sent) :
    x.deleted.track = { x.track with status := x.deleted.track.status } := by
  simp only [deleted, ITDHelper.deleteOrder]
  split <;> rfl

theorem deleted_has (x : Sent) {e : OrderRtnType} (he : Status.has (ods .cxling) e = false) :
    x.deleted.track.status.has e = x.track.status.has e := by
  simp only [deleted, ITDHelper.deleteOrder]
  split
  · simp only [Status.has, hasAny.or_left] at he ⊢
    rw [he, Bool.or_false]
  · rfl

theorem deleted_effect (vm : Int) (x : Sent) : x.deleted.effect vm = x.effect vm := by
  unfold effect
  rw [deleted_has x (by decide), deleted_track]
  rfl

theorem inv_deleted (hx : x.Inv) : x.deleted.Inv := by
  obtain ⟨h1, h2, h3, h4, h5, h6⟩ := hx
  constructor <;> rw [deleted_track]
  · exact (deleted_has x (by decide)).trans h1
  · exact h2
  · exact h3
  · exact fun h => h4 ((deleted_has x (by decide)).symm.trans h)
  · exact fun h => h5 (fun h' => h ((deleted_has x (by decide)).trans h'))
  · exact (Eq.to_iff (congrArg (· = true) (deleted_has x (by decide)))).trans h6

theorem effect_settled (vm : Int) (hx : x.Sound)
    (hsend : hasAny x.track.status (ods .send ||| ods .tdSend) = true) (hs : x.Settled) :
    x.effect vm = trackEffect vm x.track := by
  obtain ⟨h2, h3, h4, h5, h6⟩ := hx
  have hamt : x.track.status.has .execution →
      (if 0 = x.track.volTraded then 0 else x.track.amountTraded / (x.track.volTraded : ℚ)) *
        x.track.volTraded = x.track.amountTraded := by
    intro he
    have hpos := h4 he
    have hne : (x.track.volTraded : ℚ) ≠ 0 := by
      have : x.track.volTraded ≠ 0 := by omega
      exact_mod_cast this
    rw [if_neg (by omega), div_mul_cancel₀ _ hne]
  have hcxl : x.closing.elim 0 (Effect.cxl vm x.track.dir x.track.off x.track.price) =
      if x.track.status.has .closed && x.track.vol != x.track.volTraded then
        .cxl vm x.track.dir x.track.off x.track.price (x.track.vol - x.track.volTraded) else 0 := by
    cases hc : x.closing with
    | none =>
      rw [if_neg]
      · rfl
      · rw [hc] at h6
        simp only [Option.isSome_none, Bool.false_eq_true, false_or] at h6
        simp only [Bool.and_eq_true, bne_iff_ne, ne_eq, h6, not_and, not_not]
        exact fun h => h.symm
    | some c =>
      obtain ⟨hlt, rfl⟩ := hs c hc
      rw [if_pos]
      · rfl
      · rw [hc] at h6
        simp only [Option.isSome_some, true_or, iff_true] at h6
        simp only [Bool.and_eq_true, bne_iff_ne, ne_eq, h6, true_and]
        omega
  unfold effect trackEffect
  rw [if_pos hsend, hcxl]
  congr 1
  split
  · rename_i he
    rw [hamt he]
  · rfl

end Sent

/-- What `order_track_` holds under a `local_id`, read as an unsigned index. -/
def trackAt (l : List Sent) (id : Int) : Option Sent := if 0 ≤ id then l[id.toNat]? else none

/-! ## Runs of a helper beside an account -/

/-- `ITDHelper::order_track_` and the account its owner books the orders on. -/
structure Helper where
  acc : AccBase
  sent : List Sent

inductive HelperEvent where
  | sendOrder (instr : String) (accId stgId : Int) (o : Order)
  | deleteOrder (id : Int)
  | rtn (r : RtnMsg)
  deriving DecidableEq, Repr

namespace Helper

variable (info : TradeBaseInfo)

/-- `sendOrder` and `getRtn` with the calls of `onNew` and `onRtn` that follow them.
mirrors strategy/CStrategy.cpp:153-156,364-366 -/
def next (s : Helper) : HelperEvent → Helper
  | .sendOrder instr accId stgId o =>
    { acc := s.acc.onNew info o.dir o.off o.price o.vol o.instrHash
      sent := s.sent ++ [{ track := ITDHelper.sendOrder o instr accId stgId s.sent.length }] }
  | .deleteOrder id =>
    match trackAt s.sent id with
    | none => s
    | some x => { s with sent := s.sent.set id.toNat x.deleted }
  | .rtn r =>
    match trackAt s.sent r.localId with
    | none => s
    | some x =>
      { acc := s.acc.onRtn info (x.returned r).track r
        sent := s.sent.set r.localId.toNat (x.returned r) }

def Ok (s : Helper) : HelperEvent → Prop
  | .sendOrder _ _ _ o => 1 ≤ o.vol
  | .deleteOrder _ => True
  | .rtn r => ∃ x, trackAt s.sent r.localId = some x ∧ x.Accepts r

/-- Runs from an account without sent orders. -/
def sys : Lib.Sys Helper HelperEvent where
  start s := s.sent = [] ∧ Linked info s.acc
  ok := Ok
  next := next info

/-- What an order has posted. -/
def posting (x : Sent) : Posting :=
  (x.track.instrHash, (info.find x.track.instrHash).elim 0 fun i => x.effect i.volMultiple)

/-- The account has booked what the tracks say. -/
structure Inv (a0 : AccBase) (s : Helper) : Prop where
  booked : Booked info a0 (s.sent.map (posting info)) s.acc
  sent : ∀ x ∈ s.sent, x.Inv

variable {info}

/-- Replacing an order of the list by a later state of it. -/
theorem exists_split {l : List Sent} {id : Int} {x y : Sent} (hx : trackAt l id = some x) :
    ∃ l1 l2, l = l1 ++ x :: l2 ∧ l.set id.toNat y = l1 ++ y :: l2 := by
  unfold trackAt at hx
  split at hx
  · obtain ⟨hlt, hget⟩ := List.getElem?_eq_some_iff.mp hx
    refine ⟨l.take id.toNat, l.drop (id.toNat + 1), ?_, ?_⟩
    · rw [← hget, List.getElem_cons_drop, List.take_append_drop]
    · rw [List.set_eq_take_append_cons_drop, if_pos hlt]
  · cases hx

theorem mem_of_split {l1 l2 : List Sent} {x y z : Sent} (h : z ∈ l1 ++ y :: l2) :
    z = y ∨ z ∈ l1 ++ x :: l2 := by
  simp only [List.mem_append, List.mem_cons] at h ⊢
  tauto

theorem inv_send (hv : info.VolMultiplesOk) {a0 : AccBase} {s : Helper} (hs : Inv info a0 s)
    {instr : String} {accId stgId : Int} {o : Order} (ho : 1 ≤ o.vol) :
    Inv info a0 (next info s (.sendOrder instr accId stgId o)) where
  booked := by
    have hb := hs.booked.onInstr hv o.instrHash (.new · o.dir o.off o.price o.vol)
      fun vm => does_onNew vm o.dir o.off o.price o.vol
    have hp : posting info { track := ITDHelper.sendOrder o instr accId stgId s.sent.length } =
        (o.instrHash, (info.find o.instrHash).elim 0
          fun i => .new i.volMultiple o.dir o.off o.price o.vol) := by
      have he : ∀ vm, Sent.effect vm
          { track := ITDHelper.sendOrder o instr accId stgId s.sent.length } =
            .new vm o.dir o.off o.price o.vol := by
        intro vm
        simp [Sent.effect, ITDHelper.sendOrder, show Status.has (ods .send) .execution = false by decide]
      simp only [posting, he]
      rfl
    simp only [next, List.map_append, List.map_cons, List.map_nil, hp]
    exact hb
  sent := by
    intro x hx
    rw [next, List.mem_append, List.mem_singleton] at hx
    rcases hx with hx | rfl
    · exact hs.sent x hx
    · have hne : (0 : Int) ≠ o.vol := by omega
      refine ⟨?_, ho, ?_, fun h => ?_, fun _ => ⟨rfl, rfl⟩, ?_⟩
      · exact show Status.has (ods .send) .send = true by decide
      · exact show (0 : Int) ≤ o.vol by omega
      · exact absurd h (show ¬ Status.has (ods .send) .execution = true by decide)
      · simp only [ITDHelper.sendOrder, show Status.has (ods .send) .closed = false by decide, hne]
        simp

theorem inv_delete {a0 : AccBase} {s : Helper} (hs : Inv info a0 s) (id : Int) :
    Inv info a0 (next info s (.deleteOrder id)) := by
  cases hx : trackAt s.sent id with
  | none =>
    simp only [next, hx]
    exact hs
  | some x =>
    obtain ⟨l1, l2, hl, hset⟩ := exists_split (y := x.deleted) hx
    have hpost : posting info x.deleted = posting info x := by
      have hh : x.deleted.track.instrHash = x.track.instrHash := by rw [Sent.deleted_track]
      simp only [posting, Sent.deleted_effect, hh]
    simp only [next, hx]
    refine ⟨?_, ?_⟩
    · rw [hset, List.map_append, List.map_cons, hpost, ← List.map_cons, ← List.map_append, ← hl]
      exact hs.booked
    · intro z hz
      rw [hset] at hz
      rcases mem_of_split (x := x) hz with rfl | hz
      · exact Sent.inv_deleted (hs.sent x (by rw [hl]; simp))
      · exact hs.sent z (by rw [hl]; exact hz)

theorem inv_rtn (hv : info.VolMultiplesOk) {a0 : AccBase} {s : Helper} (hs : Inv info a0 s)
    {r : RtnMsg} (hr : Ok s (.rtn r)) : Inv info a0 (next info s (.rtn r)) := by
  obtain ⟨x, hx, hacc⟩ := hr
  obtain ⟨l1, l2, hl, hset⟩ := exists_split (y := x.returned r) hx
  have hxi : x.Inv := hs.sent x (by rw [hl]; simp)
  have hh : (x.returned r).track.instrHash = x.track.instrHash := by
    simp only [Sent.returned, ITDHelper.getRtn]
    split
    · split <;> rfl
    · rfl
  simp only [next, hx]
  refine ⟨?_, ?_⟩
  · have hb := hs.booked.onInstr hv (x.returned r).track.instrHash
      (rtnEffect · (x.returned r).track r) fun vm => does_rtn vm (x.returned r).track r
    have hpost : posting info (x.returned r) = ((posting info x).1, (posting info x).2 +
        (info.find (x.returned r).track.instrHash).elim 0
          fun i => rtnEffect i.volMultiple (x.returned r).track r) := by
      simp only [posting, hh, Sent.effect_returned _ ((Sent.inv_iff x).mp hxi).2 hacc]
      cases info.find x.track.instrHash <;> simp
    refine hb.equiv ?_
    rw [hset, hl, List.map_append, List.map_cons, List.map_append, List.map_cons, hpost, hh]
    exact Equiv.amend _ _ _ _ _
  · intro z hz
    rw [hset] at hz
    rcases mem_of_split (x := x) hz with rfl | hz
    · exact Sent.inv_returned hxi hacc
    · exact hs.sent z (by rw [hl]; exact hz)

theorem inv_next (hv : info.VolMultiplesOk) {a0 : AccBase} (s : Helper) (e : HelperEvent)
    (hs : Inv info a0 s) (he : Ok s e) : Inv info a0 (next info s e) := by
  cases e with
  | sendOrder instr accId stgId o => exact inv_send hv hs he
  | deleteOrder id => exact inv_delete hs id
  | rtn r => exact inv_rtn hv hs he

end Helper

/-! ## Replay -/

variable (info : TradeBaseInfo)

/-- The loop over the tracks.
mirrors strategy/CStrategy.cpp:235-237 -/
def replay (ts : List OrderTrack) (a : AccBase) : AccBase :=
  ts.foldl (fun a t => a.onOrderTrack info t) a

/-- What the tracks post. -/
def postings (ts : List OrderTrack) : List Posting :=
  ts.map fun t => (t.instrHash, (info.find t.instrHash).elim 0 fun i => trackEffect i.volMultiple t)

/-- The price of the last execution among the tracks of `h`, and `px` without one. -/
def lastPxOf (h : Hash) (px : ℚ) (ts : List OrderTrack) : ℚ :=
  ts.foldl (fun px t => if t.instrHash = h ∧ t.status.has .execution then
    (if 0 = t.volTraded then 0 else t.amountTraded / t.volTraded) else px) px

/-- A tick on each of the instruments `hs`. -/
def ticks (px : Hash → ℚ) (hs : List Hash) (a : AccBase) : AccBase :=
  hs.foldl (fun a h => a.onTickPx info h (px h)) a

variable {info}

theorem booked_replay (hv : info.VolMultiplesOk) {a0 a : AccBase} {l : List Posting}
    (ts : List OrderTrack) (hb : Booked info a0 l a) :
    Booked info a0 (l ++ postings info ts) (replay info ts a) := by
  induction ts generalizing l a with
  | nil => simpa [replay, postings] using hb
  | cons t ts ih =>
    have h := ih (hb.onInstr hv t.instrHash (trackEffect · t) fun vm => does_orderTrack vm t)
    rw [List.append_assoc] at h
    exact h

theorem lastPx_orderTrackBooks (t : OrderTrack) (b : Books) :
    (orderTrackBooks t b).instr.unitPx.lastPx =
      if t.status.has .execution then (if 0 = t.volTraded then 0 else t.amountTraded / t.volTraded)
      else b.instr.unitPx.lastPx := by
  unfold orderTrackBooks
  dsimp only
  split
  · rw [Books.onTrd_eq]
    simp [Books.onTickPx_eq]
  · split <;> split <;> simp [Books.onCxl_eq, Books.onNew_eq]

/-- An event on `h'` leaves the other instruments' books alone. -/
theorem instr_onInstr (hv : info.VolMultiplesOk) {a : AccBase} (hl : Linked info a) (h' : Hash)
    (f : Books → Books) {h : Hash} {i : InstrumentInfo} (hf : info.find h = some i) :
    ((a.onInstr info h' f).booksAt h i).instr =
      if h' = h then (f (a.booksAt h i)).instr else (a.booksAt h i).instr := by
  unfold booksAt
  rw [(hl.onInstr_addr hv h' _ f).2]
  split
  · rename_i heq
    subst heq
    rw [hl.onInstr_eq hf (hv h' i hf), put_instr, if_pos rfl]
    rfl
  · rename_i heq
    cases hf' : info.find h' with
    | none => rw [onInstr_unknown _ hf']
    | some i' =>
      rw [hl.onInstr_eq hf' (hv h' i' hf'), put_instr, reg_find, if_neg (Ne.symm heq),
        if_neg (Ne.symm heq)]

theorem lastPx_replay (hv : info.VolMultiplesOk) {h : Hash} {i : InstrumentInfo}
    (hf : info.find h = some i) (ts : List OrderTrack) {a : AccBase} (hl : Linked info a) :
    ((replay info ts a).booksAt h i).instr.unitPx.lastPx =
      lastPxOf h (a.booksAt h i).instr.unitPx.lastPx ts := by
  induction ts generalizing a with
  | nil => rfl
  | cons t ts ih =>
    have hstep : ((a.onOrderTrack info t).booksAt h i).instr.unitPx.lastPx =
        if t.instrHash = h ∧ t.status.has .execution then
          (if 0 = t.volTraded then 0 else t.amountTraded / t.volTraded)
        else (a.booksAt h i).instr.unitPx.lastPx := by
      rw [AccBase.onOrderTrack, instr_onInstr hv hl t.instrHash _ hf]
      by_cases hh : t.instrHash = h
      · simp only [hh, if_true, true_and, lastPx_orderTrackBooks]
      · simp only [hh, if_false, false_and]
    have hl' : Linked info (a.onOrderTrack info t) := hl.onInstr hv (keeps_orderTrack t)
    have := ih hl'
    rw [hstep] at this
    exact this

theorem booked_ticks (hv : info.VolMultiplesOk) {a0 a : AccBase} {l : List Posting} (px : Hash → ℚ)
    (hs : List Hash) (hb : Booked info a0 l a) :
    Booked info a0 (l ++ hs.map fun h => (h, 0)) (ticks info px hs a) := by
  induction hs generalizing l a with
  | nil => simpa [ticks] using hb
  | cons h hs ih =>
    have h' := ih (hb.onInstr hv h (fun _ => 0) fun vm => does_onTickPx vm (px h))
    rw [List.append_assoc] at h'
    refine h'.equiv ?_
    cases info.find h <;> exact Posting.Equiv.refl _

theorem lastPx_onTickPx (hv : info.VolMultiplesOk) {a : AccBase} (hl : Linked info a) (h' : Hash)
    (px : ℚ) {h : Hash} {i : InstrumentInfo} (hf : info.find h = some i) :
    ((a.onTickPx info h' px).booksAt h i).instr.unitPx.lastPx =
      if h = h' then px else (a.booksAt h i).instr.unitPx.lastPx := by
  rw [AccBase.onTickPx, instr_onInstr hv hl h' _ hf]
  by_cases heq : h = h'
  · rw [if_pos heq, if_pos heq.symm]
    simp [Books.onTickPx_eq]
  · rw [if_neg heq, if_neg (Ne.symm heq)]

/-- After the ticks every instrument of the list has its price. -/
theorem lastPx_ticks (hv : info.VolMultiplesOk) {a : AccBase} (hl : Linked info a) (px : Hash → ℚ)
    (hs : List Hash) {h : Hash} {i : InstrumentInfo} (hf : info.find h = some i)
    (hh : h ∈ hs ∨ (a.booksAt h i).instr.unitPx.lastPx = px h) :
    ((ticks info px hs a).booksAt h i).instr.unitPx.lastPx = px h := by
  induction hs generalizing a with
  | nil =>
    rcases hh with hh | hh
    · cases hh
    · exact hh
  | cons h' hs ih =>
    refine ih (hl.onInstr hv fun b => Keeps.onTickPx b (px h')) ?_
    rw [lastPx_onTickPx hv hl h' (px h') hf]
    by_cases heq : h = h'
    · rw [if_pos heq, heq]
      exact Or.inr rfl
    · rw [if_neg heq]
      rwa [List.mem_cons, or_iff_right heq] at hh

/-- **Replaying the tracks rebuilds the account.** After every run of orders
whose closing returns carried what the fills left over, replaying the tracks in
any order on the start account, and a tick on every instrument that has an
order, gives the account of the run after the same ticks. -/
theorem replay_of_run (hv : info.VolMultiplesOk) {s0 : Helper} (h0 : (Helper.sys info).start s0)
    {es : List HelperEvent} (he : (Helper.sys info).Admits s0 es)
    (hset : ∀ x ∈ ((Helper.sys info).exec s0 es).sent, x.Settled) {ts : List OrderTrack}
    (hts : ts.Perm (((Helper.sys info).exec s0 es).sent.map (·.track))) (px : Hash → ℚ)
    {hs : List Hash} (hhs : ∀ x ∈ ((Helper.sys info).exec s0 es).sent, x.track.instrHash ∈ hs) :
    Same (ticks info px hs (replay info ts s0.acc))
      (ticks info px hs ((Helper.sys info).exec s0 es).acc) := by
  have hstart : Helper.Inv info s0.acc s0 := by
    refine ⟨?_, ?_⟩ <;> rw [h0.1]
    · exact Booked.start h0.2
    · intro x hx
      cases hx
  have hinv := (Helper.sys info).invariant_run (I := Helper.Inv info s0.acc) (Helper.inv_next hv)
    s0 es hstart he
  generalize (Helper.sys info).exec s0 es = s at hset hts hhs hinv
  have hlive := booked_ticks hv px hs hinv.booked
  have hreplay := booked_ticks hv px hs (booked_replay hv ts (Booked.start h0.2))
  have hperm : (ts.map fun t => ((t.instrHash, (info.find t.instrHash).elim 0
      fun i => trackEffect i.volMultiple t) : Posting)).Perm (s.sent.map (Helper.posting info)) := by
    refine (hts.map _).trans (List.Perm.of_eq ?_)
    rw [List.map_map]
    apply List.map_congr_left
    intro x hx
    obtain ⟨h1, hs⟩ := (Sent.inv_iff x).mp (hinv.sent x hx)
    simp only [Function.comp, Helper.posting,
      Sent.effect_settled _ hs (hasAny.mono (by decide) h1) (hset x hx)]
  refine (hreplay.equiv (Posting.Equiv.of_perm (List.Perm.append_right _ hperm))).same hlive ?_
  intro h i hf ht
  have hmem : h ∈ hs := by
    rw [touched_append] at ht
    rcases ht with ⟨e, ht⟩ | ⟨e, ht⟩
    · obtain ⟨x, hx, hxe⟩ := List.mem_map.mp ht
      have := hhs x hx
      simp only [Helper.posting, Prod.mk.injEq] at hxe
      rwa [hxe.1] at this
    · simp only [List.mem_map, Prod.mk.injEq] at ht
      obtain ⟨h', hh', rfl, -⟩ := ht
      exact hh'
  rw [lastPx_ticks hv hinv.booked.linked px hs hf (Or.inl hmem),
    lastPx_ticks hv (booked_replay hv ts (Booked.start h0.2)).linked px hs hf (Or.inl hmem)]

/-- A buy of 3 in two fills, a sell cancelled after one, a fill after a closing
return and an order still open, on two contracts, replayed in another order. -/
theorem replay_rb :
    let S := Helper.sys TradeBaseInfo.rb
    let s := S.exec ⟨{}, []⟩
      [.sendOrder "rb1810" 0 0 ⟨1, .buy, .opn, 10, 3⟩, .sendOrder "rb1901" 0 0 ⟨2, .sell, .opn, 9, 2⟩,
        .rtn { localId := 0, msgType := ods .execution, price := 10, vol := 1 },
        .sendOrder "rb1810" 0 0 ⟨1, .sell, .closeToday, 11, 2⟩,
        .rtn { localId := 1, msgType := ods .canceled, vol := 1 },
        .rtn { localId := 0, msgType := ods .execution, price := 8, vol := 2 }, .deleteOrder 2,
        .rtn { localId := 1, msgType := ods .execution, price := 9, vol := 1 },
        .rtn { localId := 2, msgType := ods .execution, price := 12, vol := 1 }]
    Same (ticks TradeBaseInfo.rb (fun _ => 20) [1, 2]
        (replay TradeBaseInfo.rb (s.sent.map (·.track)).reverse {}))
      (ticks TradeBaseInfo.rb (fun _ => 20) [1, 2] s.acc) := by
  refine replay_of_run TradeBaseInfo.rb_volMultiplesOk ⟨rfl, linked_empty⟩ ?_ ?_
    (List.reverse_perm _) _ ?_
  · have h2 : (1 : Int) ≤ 2 := by decide
    have h3 : (1 : Int) ≤ 3 := by decide
    refine ⟨h3, h2, ⟨_, rfl, ⟨[.execution], rfl⟩, ?_, ?_⟩, h2,
      ⟨_, rfl, ⟨[.canceled], rfl⟩, ?_, ?_⟩, ⟨_, rfl, ⟨[.execution], rfl⟩, ?_, ?_⟩, trivial,
      ⟨_, rfl, ⟨[.execution], rfl⟩, ?_, ?_⟩, ⟨_, rfl, ⟨[.execution], rfl⟩, ?_, ?_⟩, trivial⟩ <;>
      decide +kernel
  · decide +kernel
  · decide +kernel

end NatFramework.Account
