import NatFramework.Td.FakeVolumes

/-!
# The day switch of the simulated exchange

Runs of all calls on `CTDHelperFake`. `on_switch_day` clears the tracks, the ticks
and the queue of orders, but not the queue of messages: a message of the old day
may be read when its id has been given out again.

`FakeDays` puts beside the exchange, for every message in the queue, the day it
was put there, and counts those that the last switch found there (`stale`).

* `FakeCall.posts`: a call puts messages of orders of its day behind the others.
* `day_switch_iff`: the messages read are the day's own, if and only if no stale message
  is read once its id is in use again.
* `day_switch_of_drained`: so they are when every switch finds the queue empty.
-/
namespace NatFramework.Td

open Lib

/-! ## What a call adds to the queue -/

/-- The tracks of the client and of the exchange run in step. -/
structure FakeIds (s : CTDHelperFake) : Prop where
  length_eq : s.orderTrack.length = s.engOrderTrack.length
  queue_lt : ∀ id ∈ s.queuedTrackId, id < s.engOrderTrack.length

/-- The step adds messages of orders there are, and takes no order away. -/
structure Posts (s s' : CTDHelperFake) : Prop where
  ids : FakeIds s'
  orders : s.orderTrack.length ≤ s'.orderTrack.length
  messages : ∃ ms, s'.rtnMsgQueue = s.rtnMsgQueue ++ ms ∧
    ∀ m ∈ ms, ∃ id, id < s'.orderTrack.length ∧ m.localId = (id : Int)

variable {s s' s'' : CTDHelperFake} {id : Nat}

namespace Posts

theorem refl (h : FakeIds s) : Posts s s :=
  ⟨h, Nat.le_refl _, [], (List.append_nil _).symm, fun _ hm => nomatch hm⟩

theorem trans (h : Posts s s') (h' : Posts s' s'') : Posts s s'' := by
  obtain ⟨ms, hms, hids⟩ := h.messages
  obtain ⟨ms', hms', hids'⟩ := h'.messages
  refine ⟨h'.ids, Nat.le_trans h.orders h'.orders, ms ++ ms', ?_, ?_⟩
  · rw [hms', hms, List.append_assoc]
  · intro m hm
    rcases List.mem_append.mp hm with hm | hm
    · obtain ⟨id, hid, hlocal⟩ := hids m hm
      exact ⟨id, Nat.lt_of_lt_of_le hid h'.orders, hlocal⟩
    · exact hids' m hm

/-- The client's tracks are rewritten in place. -/
theorem track (h : Posts s s') (id : Nat) (ot : OrderTrack) :
    Posts s { s' with orderTrack := s'.orderTrack.set id ot } := by
  refine ⟨⟨?_, h.ids.queue_lt⟩, ?_, ?_⟩
  · rw [List.length_set]
    exact h.ids.length_eq
  · rw [List.length_set]
    exact h.orders
  · rw [List.length_set]
    exact h.messages

/-- The last ticks play no part. -/
theorem wall (h : Posts s s') (w : Hash → Option TTick) : Posts s { s' with lastTickWall := w } :=
  ⟨⟨h.ids.length_eq, h.ids.queue_lt⟩, h.orders, h.messages⟩

/-- Messages of one order, with its track rewritten and orders leaving the queue. -/
theorem order (h : FakeIds s) (hid : id < s.engOrderTrack.length) {eng : List OrderTrack}
    (heng : eng.length = s.engOrderTrack.length) {ms : List RtnMsg} (hms : ∀ m ∈ ms, m.localId = (id : Int))
    {q : List Nat} (hq : ∀ j ∈ q, j ∈ s.queuedTrackId) :
    Posts s
      { s with engOrderTrack := eng, rtnMsgQueue := s.rtnMsgQueue ++ ms, queuedTrackId := q } := by
  refine ⟨⟨?_, ?_⟩, Nat.le_refl _, ms, rfl, ?_⟩
  · rw [heng]
    exact h.length_eq
  · intro j hj
    rw [heng]
    exact h.queue_lt j (hq j hj)
  · intro m hm
    exact ⟨id, by rw [h.length_eq]; exact hid, hms m hm⟩

end Posts

/-- The step rewrites tracks, and adds messages of one order. -/
def ChangesOrder (id : Nat) (s s' : CTDHelperFake) : Prop :=
  ∃ eng ms, eng.length = s.engOrderTrack.length ∧ (∀ m ∈ ms, m.localId = (id : Int)) ∧
    s' = { s with engOrderTrack := eng, rtnMsgQueue := s.rtnMsgQueue ++ ms }

theorem ChangesOrder.set (h : ChangesOrder id s s') (ot : OrderTrack) :
    ChangesOrder id s (s'.setEngOrderTrack id ot) := by
  obtain ⟨eng, ms, hlen, hms, rfl⟩ := h
  exact ⟨eng.set id ot, ms, List.length_set.trans hlen, hms, rfl⟩

namespace CTDHelperFake

theorem changes_fill (id : Nat) (trade : Int) (price : ℚ) (s : CTDHelperFake) :
    ChangesOrder id s (s.fill id trade price) :=
  ⟨s.engOrderTrack.set id _, [_], List.length_set,
    fun _ hm => by rw [List.mem_singleton.mp hm]; rfl, rfl⟩

/-- A match, of whatever order and tick. -/
theorem makeMatch_changes (id : Nat) (tick : TTick) (s : CTDHelperFake) :
    ChangesOrder id s (s.makeMatch id tick).1 := by
  have hrefl : ChangesOrder id s s :=
    ⟨s.engOrderTrack, [], rfl, fun _ hm => (nomatch hm), by rw [List.append_nil]⟩
  -- what is left of the match behind a trade
  have hend : ∀ r : CTDHelperFake × TTick, ChangesOrder id s r.1 →
      ChangesOrder id s
        (if (r.1.getEngOrderTrack id).vol ≤ (r.1.getEngOrderTrack id).volTraded then
            (r.1.setEngOrderTrack id
              { r.1.getEngOrderTrack id with
                  status := (r.1.getEngOrderTrack id).status ||| ods .closed }, r.2, true)
          else (r.1, r.2, false)).1 := by
    intro r hr
    split
    · exact hr.set _
    · exact hr
  unfold makeMatch
  refine hend _ ?_
  split
  · split
    · exact changes_fill id _ _ s
    · exact hrefl
  · split
    · exact changes_fill id _ _ s
    · exact hrefl
  · exact hrefl

theorem matchQueued_posts (h : FakeIds s) (hid : id < s.engOrderTrack.length) (tick : TTick) :
    Posts s (s.matchQueued id tick).1 := by
  obtain ⟨eng, ms, hlen, hms, heq⟩ := makeMatch_changes id tick s
  unfold matchQueued
  dsimp only
  rw [heq]
  split
  · exact .order h hid hlen hms fun j hj => List.mem_of_mem_filter hj
  · exact .order h hid hlen hms fun j hj => hj

theorem tickLoop_posts (instr : String) (ids : List Nat) (s : CTDHelperFake) (tick : TTick)
    (h : FakeIds s) (hids : ∀ id ∈ ids, id < s.orderTrack.length) :
    Posts s (tickLoop instr ids (s, tick)).1 := by
  induction ids generalizing s tick with
  | nil => exact .refl h
  | cons id ids ih =>
    have htail : ∀ j ∈ ids, j < s.orderTrack.length := fun j hj => hids j (List.mem_cons_of_mem id hj)
    unfold tickLoop
    split
    · split
      · have hmatch := matchQueued_posts h (h.length_eq ▸ hids id List.mem_cons_self) tick
        refine hmatch.trans (ih (s.matchQueued id tick).1 (s.matchQueued id tick).2 hmatch.ids ?_)
        exact fun j hj => Nat.lt_of_lt_of_le (htail j hj) hmatch.orders
      · exact ih s tick h htail
    · exact .refl h

theorem onTick_posts (h : FakeIds s) (t : TickData) : Posts s (s.onTick t) :=
  (tickLoop_posts t.instrStr s.queuedTrackId s t.tick h
    fun id hid => h.length_eq ▸ h.queue_lt id hid).wall _

theorem doDelOrder_posts (h : FakeIds s) (hid : id < s.engOrderTrack.length) :
    Posts s (s.doDelOrder id) := by
  obtain ⟨ot, m, -, -, hm, heq⟩ := doDelOrder_terms (List.getElem?_eq_getElem hid)
  rw [heq]
  refine .order h hid List.length_set ?_ fun j hj => List.mem_of_mem_filter hj
  intro x hx
  rw [List.mem_singleton.mp hx]
  exact hm

/-- A new order, with its first messages. -/
theorem add_posts (h : FakeIds s) (track ot : OrderTrack) {ms : List RtnMsg}
    (hms : ∀ m ∈ ms, m.localId = (s.orderTrack.length : Int)) {q : List Nat}
    (hq : ∀ j ∈ q, j = s.orderTrack.length ∨ j ∈ s.queuedTrackId) :
    Posts s
      { s with
          orderTrack := s.orderTrack ++ [track]
          engOrderTrack := s.engOrderTrack ++ [ot]
          rtnMsgQueue := s.rtnMsgQueue ++ ms
          queuedTrackId := q } := by
  have hlen := h.length_eq
  refine ⟨⟨?_, ?_⟩, ?_, ms, rfl, ?_⟩
  · simp only [List.length_append, hlen, List.length_singleton]
  · intro j hj
    simp only [List.length_append, List.length_singleton]
    rcases hq j hj with rfl | hj
    · omega
    · have := h.queue_lt j hj
      omega
  · simp
  · intro m hm
    exact ⟨s.orderTrack.length, by simp, hms m hm⟩

theorem sendOrder_posts (h : FakeIds s) (a : OrderArgs) : Posts s (s.sendOrder a) := by
  by_cases hvalid : Dir.Valid a.dir
  · have hent : Posts s (s.entered a) := by
      refine add_posts h _ _ ?_ ?_
      · intro m hm
        simp only [acceptances, List.mem_cons, List.not_mem_nil, or_false] at hm
        rcases hm with rfl | rfl | rfl <;> rfl
      · intro j hj
        split at hj
        · exact .inr hj
        · exact (List.mem_orderedInsert _).mp hj
    rw [sendOrder_valid hvalid]
    split
    · exact hent
    · have hid : s.orderTrack.length < (s.entered a).engOrderTrack.length := by
        rw [h.length_eq]
        unfold entered
        simp
      exact (hent.trans (matchQueued_posts hent.ids hid _)).wall _
  · rw [sendOrder_invalid hvalid]
    refine add_posts h _ _ ?_ fun j hj => .inr hj
    intro m hm
    rw [List.mem_singleton.mp hm]
    rfl

theorem deleteOrder_posts (h : FakeIds s) (id : Nat) : Posts s (s.deleteOrder id).1 := by
  unfold deleteOrder
  split
  · rename_i hid
    dsimp only
    split
    · have hdel := doDelOrder_posts h (h.length_eq ▸ hid)
      have htrack : (s.doDelOrder id).orderTrack = s.orderTrack := by
        obtain ⟨ot, m, -, -, -, heq⟩ :=
          doDelOrder_terms (List.getElem?_eq_getElem (h.length_eq ▸ hid : id < s.engOrderTrack.length))
        rw [heq]
      rw [← htrack]
      exact hdel.track id _
    · exact .refl h
  · exact .refl h

end CTDHelperFake

theorem FakeCall.posts (h : FakeIds s) {c : FakeCall} (hc : ∀ id, c = .del id → id < s.engOrderTrack.length) :
    Posts s (c.apply s) := by
  cases c with
  | send a => exact CTDHelperFake.sendOrder_posts h a
  | del id => exact CTDHelperFake.doDelOrder_posts h (hc id rfl)
  | tick t => exact CTDHelperFake.onTick_posts h t

theorem getRtn_nil (h : s.rtnMsgQueue = []) : s.getRtn = (s, none) := by
  unfold CTDHelperFake.getRtn CTDHelperFake.doGetRtn
  rw [h]

theorem getRtn_cons {p : RtnMsg} {ms : List RtnMsg} (h : s.rtnMsgQueue = p :: ms) :
    s.getRtn =
      if p.localId.toNat < s.orderTrack.length then
        ({ s with
            rtnMsgQueue := ms
            orderTrack := s.orderTrack.set p.localId.toNat
              (CTDHelperFake.rtnTrack p (s.orderTrack.getD p.localId.toNat {})) }, some p)
      else ({ s with rtnMsgQueue := ms }, none) := by
  unfold CTDHelperFake.getRtn CTDHelperFake.doGetRtn
  rw [h]

/-- `getRtn` takes the first message and rewrites a track of the client. -/
theorem getRtn_changes (s : CTDHelperFake) :
    ∃ tracks, tracks.length = s.orderTrack.length ∧
      s.getRtn.1 = { s with orderTrack := tracks, rtnMsgQueue := s.rtnMsgQueue.tail } := by
  cases hq : s.rtnMsgQueue with
  | nil =>
    refine ⟨s.orderTrack, rfl, ?_⟩
    rw [getRtn_nil hq, List.tail_nil, ← hq]
  | cons p ms =>
    rw [getRtn_cons hq]
    split
    · exact ⟨_, List.length_set, rfl⟩
    · exact ⟨s.orderTrack, rfl, rfl⟩

/-! ## Days -/

inductive DayCall
  | call (c : FakeCall)
  | deleteOrder (id : Nat)
  | getRtn
  | switchDay

/-- The exchange, the day, the day of each message in the queue, and how many of
them the last switch found there. -/
structure FakeDays where
  fake : CTDHelperFake := {}
  day : Nat := 0
  days : List Nat := []
  stale : Nat := 0

/-- A call that may have put messages into the queue. -/
def FakeDays.post (g : FakeDays) (s : CTDHelperFake) : FakeDays :=
  { g with
      fake := s
      days := g.days ++ List.replicate (s.rtnMsgQueue.length - g.fake.rtnMsgQueue.length) g.day }

def DayCall.apply (g : FakeDays) : DayCall → FakeDays
  | call c => g.post (c.apply g.fake)
  | deleteOrder id => g.post (g.fake.deleteOrder id).1
  | getRtn => { g with fake := g.fake.getRtn.1, days := g.days.tail, stale := g.stale - 1 }
  | switchDay =>
    { g with fake := g.fake.onSwitchDay, day := g.day + 1, stale := g.fake.rtnMsgQueue.length }

def daySys : Sys FakeDays DayCall where
  start g := g = {}
  ok g
    | .call (.del id) => id < g.fake.engOrderTrack.length
    | _ => True
  next := DayCall.apply

/-- What `getRtn` returns has been put into the queue today, for an order of today. -/
def ReadsOwn (g : FakeDays) : Prop :=
  ∀ p, g.fake.getRtn.2 = some p →
    g.days.head? = some g.day ∧ p.localId.toNat < g.fake.orderTrack.length

/-- The message to be read was there at the last switch, and its id has been given
out again since. -/
def StaleInUse (g : FakeDays) : Prop :=
  0 < g.stale ∧ ∃ p, g.fake.rtnMsgQueue.head? = some p ∧ p.localId.toNat < g.fake.orderTrack.length

/-- Stale messages first, those of today behind them. -/
structure DaysOk (g : FakeDays) : Prop where
  ids : FakeIds g.fake
  stale_le : g.stale ≤ g.fake.rtnMsgQueue.length
  days : ∃ old, g.days = old ++ List.replicate (g.fake.rtnMsgQueue.length - g.stale) g.day ∧
    old.length = g.stale ∧ ∀ d ∈ old, d < g.day
  today : ∀ m ∈ g.fake.rtnMsgQueue.drop g.stale, ∃ id, id < g.fake.orderTrack.length ∧
    m.localId = (id : Int)

namespace DaysOk

variable {g : FakeDays}

theorem start : DaysOk {} where
  ids := ⟨rfl, fun _ h => nomatch h⟩
  stale_le := Nat.le_refl 0
  days := ⟨[], rfl, rfl, fun _ h => nomatch h⟩
  today _ h := nomatch h

theorem post (h : DaysOk g) (hs : Posts g.fake s) : DaysOk (g.post s) := by
  obtain ⟨ms, hms, hids⟩ := hs.messages
  obtain ⟨old, hdays, hlen, hold⟩ := h.days
  have hle := h.stale_le
  unfold FakeDays.post
  refine ⟨hs.ids, ?_, ⟨old, ?_, hlen, hold⟩, ?_⟩
  · dsimp only
    rw [hms, List.length_append]
    omega
  · dsimp only
    rw [hdays, hms, List.append_assoc, ← List.replicate_add, List.length_append]
    congr 2
    omega
  · dsimp only
    intro m hm
    rw [hms, List.drop_append_of_le_length hle] at hm
    rcases List.mem_append.mp hm with hm | hm
    · obtain ⟨id, hid, hlocal⟩ := h.today m hm
      exact ⟨id, Nat.lt_of_lt_of_le hid hs.orders, hlocal⟩
    · exact hids m hm

theorem getRtn (h : DaysOk g) : DaysOk (DayCall.getRtn.apply g) := by
  obtain ⟨tracks, htracks, heq⟩ := getRtn_changes g.fake
  obtain ⟨old, hdays, hlen, hold⟩ := h.days
  have hle := h.stale_le
  have htail : g.fake.rtnMsgQueue.tail.length = g.fake.rtnMsgQueue.length - 1 := List.length_tail
  unfold DayCall.apply
  rw [heq]
  refine ⟨⟨htracks.trans h.ids.length_eq, h.ids.queue_lt⟩, ?_, ⟨old.tail, ?_, ?_, ?_⟩, ?_⟩
  · dsimp only
    omega
  · dsimp only
    rw [hdays, htail]
    cases old with
    | nil =>
      rw [List.length_nil] at hlen
      rw [List.nil_append, List.tail_replicate, List.tail_nil, List.nil_append]
      congr 1
      omega
    | cons d old =>
      rw [List.length_cons] at hlen
      rw [List.cons_append, List.tail_cons, List.tail_cons]
      congr 2
      omega
  · dsimp only
    rw [List.length_tail, hlen]
  · exact fun d hd => hold d (List.mem_of_mem_tail hd)
  · dsimp only
    intro m hm
    rw [htracks]
    refine h.today m ?_
    rw [List.drop_tail] at hm
    have hsub : g.stale ≤ g.stale - 1 + 1 := by omega
    exact (List.drop_subset_drop_left _ hsub) hm

theorem switchDay (h : DaysOk g) : DaysOk (DayCall.switchDay.apply g) := by
  obtain ⟨old, hdays, hlen, hold⟩ := h.days
  have hle := h.stale_le
  unfold DayCall.apply CTDHelperFake.onSwitchDay
  refine ⟨⟨rfl, fun _ hj => nomatch hj⟩, Nat.le_refl _, ⟨g.days, ?_, ?_, ?_⟩, ?_⟩
  · dsimp only
    rw [Nat.sub_self, List.replicate_zero, List.append_nil]
  · rw [hdays, List.length_append, List.length_replicate, hlen]
    dsimp only
    omega
  · intro d hd
    rw [hdays] at hd
    rcases List.mem_append.mp hd with hd | hd
    · exact Nat.lt_succ_of_lt (hold d hd)
    · rw [List.eq_of_mem_replicate hd]
      exact Nat.lt_succ_self _
  · dsimp only
    rw [List.drop_length]
    exact fun _ hm => nomatch hm

theorem step (g : FakeDays) (e : DayCall) (h : DaysOk g) (ha : daySys.ok g e) :
    DaysOk (e.apply g) := by
  cases e with
  | call c =>
    refine h.post (FakeCall.posts h.ids ?_)
    rintro id rfl
    exact ha
  | deleteOrder id => exact h.post (CTDHelperFake.deleteOrder_posts h.ids id)
  | getRtn => exact h.getRtn
  | switchDay => exact h.switchDay

/-- A read is clean unless it takes a stale message whose id is in use again. -/
theorem readsOwn_iff (h : DaysOk g) : ReadsOwn g ↔ ¬StaleInUse g := by
  obtain ⟨old, hdays, hlen, hold⟩ := h.days
  unfold ReadsOwn StaleInUse
  cases hq : g.fake.rtnMsgQueue with
  | nil =>
    rw [getRtn_nil hq]
    simp
  | cons p ms =>
    rw [getRtn_cons hq]
    by_cases hid : p.localId.toNat < g.fake.orderTrack.length
    · have hstale : g.days.head? = some g.day ↔ g.stale = 0 := by
        rw [hdays, hq]
        cases old with
        | nil =>
          rw [List.length_nil] at hlen
          simp [← hlen, List.replicate_succ]
        | cons d old =>
          rw [List.length_cons] at hlen
          have hd := hold d List.mem_cons_self
          rw [List.cons_append, List.head?_cons, Option.some.injEq]
          omega
      simp [hid, hstale]
    · simp [hid]

end DaysOk

theorem daysOk_run {es : List DayCall} (ha : daySys.Admits {} es) : DaysOk (daySys.exec {} es) :=
  daySys.invariant_run DaysOk.step {} es .start ha

/-- What is read is the day's own, if and only if no stale message is read once
its id is in use again. -/
theorem day_switch_iff (es : List DayCall) (ha : daySys.Admits {} es) :
    AtEach (fun pre e => e = .getRtn → ReadsOwn (daySys.exec {} pre)) es ↔
      AtEach (fun pre e => e = .getRtn → ¬StaleInUse (daySys.exec {} pre)) es := by
  have hreads : ∀ pre e post, es = pre ++ e :: post →
      (ReadsOwn (daySys.exec {} pre) ↔ ¬StaleInUse (daySys.exec {} pre)) := by
    rintro pre e post rfl
    exact (daysOk_run ((daySys.admits_append {} pre (e :: post)).mp ha).1).readsOwn_iff
  constructor
  · intro h pre e post heq he
    exact (hreads pre e post heq).mp (h pre e post heq he)
  · intro h pre e post heq he
    exact (hreads pre e post heq).mpr (h pre e post heq he)

/-- The exchange takes an order, the day switches, and another order is sent. -/
def unreadAtSwitch : List DayCall :=
  [.call (.send { instr := "rb", price := 102, vol := 3, dir := .buy, instrHash := 1 }), .switchDay,
    .call (.send { instr := "cu", price := 70, vol := 1, dir := .sell, instrHash := 2 })]

/-- A message is read on each of two days. -/
def readEachDay : List DayCall :=
  [.call (.send { instr := "rb", price := 102, vol := 3, dir := .buy, instrHash := 1 }), .getRtn, .switchDay,
    .call (.send { instr := "cu", price := 70, vol := 1, dir := .sell, instrHash := 2 }), .getRtn]

theorem day_switch_read :
    AtEach (fun pre e => e = .getRtn → ReadsOwn (daySys.exec {} pre)) readEachDay ↔
      AtEach (fun pre e => e = .getRtn → ¬StaleInUse (daySys.exec {} pre)) readEachDay :=
  day_switch_iff readEachDay ⟨trivial, trivial, trivial, trivial, trivial, trivial⟩

theorem stale_rtn :
    ¬∀ es, daySys.Admits {} es →
      AtEach (fun pre e => e = .getRtn → ReadsOwn (daySys.exec {} pre)) es := by
  intro h
  have hread := h (unreadAtSwitch ++ [DayCall.getRtn]) ⟨trivial, trivial, trivial, trivial, trivial⟩
    unreadAtSwitch .getRtn [] rfl rfl
  have hfirst : ((daySys.exec {} unreadAtSwitch).fake.getRtn.2.map (·.instr)) = some "rb" := by
    decide +kernel
  have hday : (daySys.exec {} unreadAtSwitch).days.head? ≠
      some (daySys.exec {} unreadAtSwitch).day := by decide +kernel
  obtain ⟨p, hp, -⟩ := Option.map_eq_some_iff.mp hfirst
  exact hday (hread p hp).1

/-- A client that has read everything before each switch reads clean. -/
theorem day_switch_of_drained {es : List DayCall} (ha : daySys.Admits {} es)
    (hdrained : AtEach (fun pre e =>
      e = .switchDay → (daySys.exec {} pre).fake.rtnMsgQueue = []) es) :
    AtEach (fun pre e => e = .getRtn → ¬StaleInUse (daySys.exec {} pre)) es := by
  rintro pre e post rfl -
  have hstep : ∀ g c, g.stale = 0 → daySys.ok g c →
      (c = .switchDay → g.fake.rtnMsgQueue = []) → (c.apply g).stale = 0 := by
    intro g c hg _ hc
    cases c with
    | call c => exact hg
    | deleteOrder id => exact hg
    | getRtn => simp only [DayCall.apply, hg]
    | switchDay => simp only [DayCall.apply, hc rfl, List.length_nil]
  have hnone : (daySys.exec {} pre).stale = 0 :=
    daySys.invariant_atEach (I := fun g => g.stale = 0) hstep {} pre rfl
      ((daySys.admits_append {} pre (e :: post)).mp ha).1 hdrained.of_append
  exact fun hstale => absurd hnone (Nat.ne_of_gt hstale.1)

end NatFramework.Td
