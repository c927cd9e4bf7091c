import Mathlib.Data.List.Induction
import NatFramework.Lib.Lists
import NatFramework.Lib.Run
import NatFramework.Td.CTDHelperFake

/-!
# The simulated exchange: orders and messages

What `sendOrder`, `doDelOrder` and `on_tick` keep of `CTDHelperFake` while nothing
takes a message from the queue, so that it holds all there were.

* `OrderOk`: an order against its messages; `OrderOk.trade`, `OrderOk.cancel` and
  `OrderOk.neutral` are what a message does to it.
* `FakeOk`: every order of the exchange; `FakeOk.send`, `FakeOk.del`, `FakeOk.tick`.
* `tickLoop_ind`: what a match keeps, the loop of a tick keeps.
-/
namespace NatFramework.Td

open Lib

def Dir.Valid (d : Dir) : Prop := d = .buy ∨ d = .sell

/-! ## The messages of an order -/

def IsExec (id : Nat) (m : RtnMsg) : Prop := m.localId = id ∧ m.msgType = ods .execution

instance (id : Nat) (m : RtnMsg) : Decidable (IsExec id m) :=
  inferInstanceAs (Decidable (_ ∧ _))

/-- The lots of the EXECUTION messages of an order. -/
def execVol (id : Nat) (ms : List RtnMsg) : Int :=
  ((ms.filter fun m => decide (IsExec id m)).map (·.vol)).sum

/-- The CANCELED messages of an order. -/
def cancels (id : Nat) (ms : List RtnMsg) : List RtnMsg :=
  ms.filter fun m => decide (m.localId = id ∧ m.msgType = ods .canceled)

/-- The message ends its order of `vol` lots: it is refused, cancelled, or filled. -/
def Ends (id : Nat) (vol : Int) (pre : List RtnMsg) (m : RtnMsg) : Prop :=
  m.localId = id ∧ (m.msgType = ods .reject ∨ m.msgType = ods .canceled ∨
    m.msgType = ods .execution ∧ vol ≤ execVol id (pre ++ [m]))

/-- No EXECUTION of the order behind its end. -/
def EndsOnce (id : Nat) (vol : Int) (ms : List RtnMsg) : Prop :=
  AtEach (fun pre m => IsExec id m → ¬AtSome (Ends id vol) pre) ms

section Messages

variable {id : Nat} {ms : List RtnMsg} {m : RtnMsg}

theorem execVol_concat (id : Nat) (ms : List RtnMsg) (m : RtnMsg) :
    execVol id (ms ++ [m]) = execVol id ms + if IsExec id m then m.vol else 0 := by
  unfold execVol
  rw [List.filter_append, List.map_append, List.sum_append]
  split
  · rename_i h
    rw [List.filter_cons_of_pos (by simpa using h)]
    simp
  · rename_i h
    rw [List.filter_cons_of_neg (by simpa using h)]
    simp

theorem cancels_concat (id : Nat) (ms : List RtnMsg) (m : RtnMsg) :
    cancels id (ms ++ [m]) =
      cancels id ms ++ if m.localId = id ∧ m.msgType = ods .canceled then [m] else [] := by
  unfold cancels
  rw [List.filter_append]
  split
  · rename_i h
    rw [List.filter_cons_of_pos (by simpa using h), List.filter_nil]
  · rename_i h
    rw [List.filter_cons_of_neg (by simpa using h), List.filter_nil]

theorem execVol_eq_zero (h : ∀ m ∈ ms, m.localId ≠ id) : execVol id ms = 0 := by
  have hnil : (ms.filter fun m => decide (IsExec id m)) = [] :=
    List.filter_eq_nil_iff.mpr fun m hm => by simpa using fun hx => h m hm hx.1
  unfold execVol
  rw [hnil]
  rfl

theorem cancels_eq_nil (h : ∀ m ∈ ms, m.localId ≠ id) : cancels id ms = [] :=
  List.filter_eq_nil_iff.mpr fun m hm => by simpa using fun hx _ => h m hm hx

/-- What has been executed only grows. -/
theorem execVol_le (hpos : ∀ m ∈ ms, IsExec id m → 0 < m.vol) {pre post : List RtnMsg}
    (h : ms = pre ++ post) : execVol id pre ≤ execVol id ms := by
  induction post using List.reverseRecOn generalizing ms with
  | nil => rw [h, List.append_nil]
  | append_singleton post m ih =>
    rw [← List.append_assoc] at h
    subst h
    have hle := ih (fun x hx => hpos x (List.mem_append_left [m] hx)) rfl
    rw [execVol_concat]
    split
    · rename_i hm
      have := hpos m (by simp) hm
      omega
    · omega

end Messages

/-! ## An order and its messages -/

/-- The track of order `id` against the messages; `queued`: it is in the queue. -/
structure OrderOk (ms : List RtnMsg) (queued : Prop) (id : Nat) (ot : OrderTrack) : Prop where
  vol_pos : 1 ≤ ot.vol
  executed : execVol id ms = ot.volTraded
  exec_pos : ∀ m ∈ ms, IsExec id m → 0 < m.vol
  le : ot.volTraded ≤ ot.vol
  cancel_vol : ∀ m ∈ cancels id ms, m.vol = ot.vol - ot.volTraded
  cancel_once : (cancels id ms).length ≤ 1
  closed : ot.status.has .closed = true ↔
    ¬Dir.Valid ot.dir ∨ ot.vol ≤ ot.volTraded ∨ cancels id ms ≠ []
  queued_iff : queued ↔ Dir.Valid ot.dir ∧ ot.volTraded < ot.vol ∧ cancels id ms = []
  rejected : ∀ m ∈ ms, m.localId = id → m.msgType = ods .reject → ¬Dir.Valid ot.dir
  ends_once : EndsOnce id ot.vol ms

/-- A message that changes nothing for order `id`: another's, or one that neither
executes nor cancels it, and refuses it only for its direction. -/
def Neutral (id : Nat) (dir : Dir) (m : RtnMsg) : Prop :=
  m.localId ≠ id ∨
    m.msgType ≠ ods .execution ∧ m.msgType ≠ ods .canceled ∧
      (m.msgType = ods .reject → ¬Dir.Valid dir)

theorem Neutral.of_type {id : Nat} {dir : Dir} {m : RtnMsg} (t : OrderRtnType)
    (hm : m.msgType = ods t) (he : ods t ≠ ods .execution) (hc : ods t ≠ ods .canceled)
    (hr : ods t ≠ ods .reject) : Neutral id dir m :=
  .inr ⟨hm ▸ he, hm ▸ hc, fun hx => absurd (hm ▸ hx) hr⟩

namespace OrderOk

variable {ms : List RtnMsg} {queued queued' : Prop} {id : Nat} {ot ot' : OrderTrack} {m : RtnMsg}

/-- What the invariant reads of a track. -/
theorem congr (h : OrderOk ms queued id ot) (hq : queued' ↔ queued) (hvol : ot'.vol = ot.vol)
    (htraded : ot'.volTraded = ot.volTraded) (hdir : ot'.dir = ot.dir)
    (hclosed : ot'.status.has .closed = ot.status.has .closed) : OrderOk ms queued' id ot' where
  vol_pos := hvol ▸ h.vol_pos
  executed := htraded ▸ h.executed
  exec_pos := h.exec_pos
  le := by rw [hvol, htraded]; exact h.le
  cancel_vol := by rw [hvol, htraded]; exact h.cancel_vol
  cancel_once := h.cancel_once
  closed := by rw [hclosed, hvol, htraded, hdir]; exact h.closed
  queued_iff := by rw [hq, hvol, htraded, hdir]; exact h.queued_iff
  rejected := by rw [hdir]; exact h.rejected
  ends_once := hvol ▸ h.ends_once

theorem neutral (h : OrderOk ms queued id ot) (hm : Neutral id ot.dir m) :
    OrderOk (ms ++ [m]) queued id ot := by
  have hexec : ¬IsExec id m := fun hx => hm.elim (· hx.1) (·.1 hx.2)
  have hcancel : ¬(m.localId = id ∧ m.msgType = ods .canceled) :=
    fun hx => hm.elim (· hx.1) (·.2.1 hx.2)
  have hcancels : cancels id (ms ++ [m]) = cancels id ms := by
    rw [cancels_concat, if_neg hcancel, List.append_nil]
  constructor
  · exact h.vol_pos
  · rw [execVol_concat, if_neg hexec, Int.add_zero, h.executed]
  · intro x hx hxe
    rcases List.mem_append.mp hx with hx | hx
    · exact h.exec_pos x hx hxe
    · rw [List.mem_singleton.mp hx] at hxe
      exact absurd hxe hexec
  · exact h.le
  · rw [hcancels]
    exact h.cancel_vol
  · rw [hcancels]
    exact h.cancel_once
  · rw [hcancels]
    exact h.closed
  · rw [hcancels]
    exact h.queued_iff
  · intro x hx hid htype
    rcases List.mem_append.mp hx with hx | hx
    · exact h.rejected x hx hid htype
    · rw [List.mem_singleton.mp hx] at hid htype
      exact hm.elim (fun hne => absurd hid hne) (fun hne => hne.2.2 htype)
  · exact atEach_concat.mpr ⟨h.ends_once, fun hx => absurd hx hexec⟩

theorem neutral_append (h : OrderOk ms queued id ot) {ms' : List RtnMsg}
    (hms : ∀ m ∈ ms', Neutral id ot.dir m) : OrderOk (ms ++ ms') queued id ot := by
  induction ms' using List.reverseRecOn with
  | nil => rwa [List.append_nil]
  | append_singleton ms' m ih =>
    rw [← List.append_assoc]
    exact (ih fun x hx => hms x (List.mem_append_left [m] hx)).neutral (hms m (by simp))

/-- An order in the queue has not ended. -/
theorem not_ended (h : OrderOk ms queued id ot) (hq : queued) : ¬AtSome (Ends id ot.vol) ms := by
  obtain ⟨hvalid, hlt, hnone⟩ := h.queued_iff.mp hq
  rintro ⟨pre, x, post, heq, hid, hend⟩
  have hx : x ∈ ms := heq ▸ List.mem_append_right pre List.mem_cons_self
  rcases hend with hr | hc | ⟨-, hfull⟩
  · exact h.rejected x hx hid hr hvalid
  · have hmem : x ∈ cancels id ms := List.mem_filter.mpr ⟨hx, by simp [hid, hc]⟩
    rw [hnone] at hmem
    cases hmem
  · have hle := execVol_le h.exec_pos
      (show ms = (pre ++ [x]) ++ post by rw [heq, List.append_assoc]; rfl)
    rw [h.executed] at hle
    omega

/-- A trade of an order in the queue. -/
theorem trade (h : OrderOk ms queued id ot) (hq : queued) {trade : Int} {price : ℚ} (hpos : 0 < trade)
    (hle : trade ≤ ot.vol - ot.volTraded)
    (hq' : queued' ↔ ¬ot.vol ≤ ot.volTraded + trade) :
    OrderOk (ms ++ [CTDHelperFake.execution ot id trade price]) queued' id
      (CTDHelperFake.booked trade ot) := by
  obtain ⟨hvalid, hlt, hnone⟩ := h.queued_iff.mp hq
  have hexec : IsExec id (CTDHelperFake.execution ot id trade price) := ⟨rfl, rfl⟩
  have hopen : ot.status.has .closed = false := by
    rw [← Bool.not_eq_true, h.closed]
    rintro (hinv | hfull | hsome)
    · exact hinv hvalid
    · omega
    · exact hsome hnone
  have hcancels : cancels id (ms ++ [CTDHelperFake.execution ot id trade price]) = [] := by
    have htype : (CTDHelperFake.execution ot id trade price).msgType ≠ ods .canceled := by
      simp only [CTDHelperFake.execution]
      decide
    rw [cancels_concat, hnone, if_neg fun hx => htype hx.2]
    rfl
  constructor
  · exact h.vol_pos
  · rw [execVol_concat, if_pos hexec, h.executed]
    rfl
  · intro x hx hxe
    rcases List.mem_append.mp hx with hx | hx
    · exact h.exec_pos x hx hxe
    · rw [List.mem_singleton.mp hx]
      exact hpos
  · simp only [CTDHelperFake.booked]
    omega
  · rw [hcancels]
    exact fun x hx => nomatch hx
  · rw [hcancels]
    exact Nat.zero_le 1
  · rw [hcancels]
    simp only [CTDHelperFake.booked, ne_eq, not_true_eq_false, or_false, hvalid, false_or]
    split
    · rename_i hfull
      simp only [Status.has, hasAny.or_left, hfull, iff_true, Bool.or_eq_true]
      exact .inr (by decide)
    · rename_i hfull
      simp only [Status.has, hasAny.or_left, hfull, iff_false, Bool.or_eq_true, not_or]
      simp only [Status.has] at hopen
      rw [hopen]
      decide
  · rw [hcancels, hq']
    simp only [CTDHelperFake.booked, hvalid, true_and, and_true]
    omega
  · intro x hx hid htype
    rcases List.mem_append.mp hx with hx | hx
    · exact h.rejected x hx hid htype
    · rw [List.mem_singleton.mp hx] at htype
      simp only [CTDHelperFake.execution] at htype
      exact absurd htype (by decide)
  · exact atEach_concat.mpr ⟨h.ends_once, fun _ => h.not_ended hq⟩

/-- A cancellation of what is left of an order in the queue. -/
theorem cancel (h : OrderOk ms queued id ot) (hq : queued) (hid : m.localId = id)
    (htype : m.msgType = ods .canceled) (hvol : m.vol = ot.vol - ot.volTraded) (hq' : ¬queued') :
    OrderOk (ms ++ [m]) queued' id { ot with status := ot.status ||| ods .canceled } := by
  obtain ⟨hvalid, hlt, hnone⟩ := h.queued_iff.mp hq
  have hexec : ¬IsExec id m := fun hx => by
    rw [IsExec, htype] at hx
    exact absurd hx.2 (by decide)
  have hcancels : cancels id (ms ++ [m]) = [m] := by
    rw [cancels_concat, hnone, if_pos ⟨hid, htype⟩]
    rfl
  constructor
  · exact h.vol_pos
  · rw [execVol_concat, if_neg hexec, Int.add_zero, h.executed]
  · intro x hx hxe
    rcases List.mem_append.mp hx with hx | hx
    · exact h.exec_pos x hx hxe
    · rw [List.mem_singleton.mp hx] at hxe
      exact absurd hxe hexec
  · exact h.le
  · rw [hcancels]
    intro x hx
    rw [List.mem_singleton.mp hx, hvol]
  · rw [hcancels]
    exact Nat.le_refl 1
  · rw [hcancels]
    refine iff_of_true ?_ (.inr (.inr (by simp)))
    simp only [Status.has, hasAny.or_left, Bool.or_eq_true]
    exact .inr (by decide)
  · rw [hcancels]
    exact iff_of_false hq' (fun hx => by cases hx.2.2)
  · intro x hx hid htype'
    rcases List.mem_append.mp hx with hx | hx
    · exact h.rejected x hx hid htype'
    · rw [List.mem_singleton.mp hx, htype] at htype'
      exact absurd htype' (by decide)
  · exact atEach_concat.mpr ⟨h.ends_once, fun hx => absurd hx hexec⟩

/-- An order of which no message speaks yet. -/
theorem fresh (hnone : ∀ m ∈ ms, m.localId ≠ id) (hvol : 1 ≤ ot.vol) (htraded : ot.volTraded = 0)
    (hclosed : ot.status.has .closed = true ↔ ¬Dir.Valid ot.dir)
    (hq : queued ↔ Dir.Valid ot.dir) : OrderOk ms queued id ot := by
  have hcancels := cancels_eq_nil hnone
  constructor
  · exact hvol
  · rw [execVol_eq_zero hnone, htraded]
  · exact fun m hm hx => absurd hx.1 (hnone m hm)
  · omega
  · rw [hcancels]
    exact fun x hx => nomatch hx
  · rw [hcancels]
    exact Nat.zero_le 1
  · rw [hcancels, hclosed]
    have hlt : ¬ot.vol ≤ ot.volTraded := by omega
    simp [hlt]
  · rw [hcancels, hq]
    have hlt : ot.volTraded < ot.vol := by omega
    simp [hlt]
  · exact fun m hm hid => absurd hid (hnone m hm)
  · rintro pre x post rfl hx
    exact absurd hx.1 (hnone x (by simp))

end OrderOk

/-! ## The exchange -/

/-- The state against the messages there were. Names in use have the hash `hash`
gives them. -/
structure FakeOk (names : List String) (hash : String → Hash) (s : CTDHelperFake) : Prop where
  length_eq : s.orderTrack.length = s.engOrderTrack.length
  orders : ∀ id ot, s.engOrderTrack[id]? = some ot →
    OrderOk s.rtnMsgQueue (id ∈ s.queuedTrackId) id ot
  named : ∀ (id : Nat) (ot : OrderTrack), s.engOrderTrack[id]? = some ot →
    ot.instr ∈ names ∧ ot.instrHash = hash ot.instr
  messages : ∀ m ∈ s.rtnMsgQueue, ∃ (id : Nat) (ot : OrderTrack), s.engOrderTrack[id]? = some ot ∧
    m.localId = id ∧ m.instr = ot.instr ∧ m.dir = ot.dir
  queue_lt : ∀ id ∈ s.queuedTrackId, id < s.engOrderTrack.length
  nodup : s.queuedTrackId.Nodup

variable {names : List String} {hash : String → Hash}

namespace FakeOk

variable {s : CTDHelperFake} {id : Nat} {ot ot' : OrderTrack} {m : RtnMsg}

theorem empty : FakeOk names hash {} where
  length_eq := rfl
  orders _ _ h := nomatch h
  named _ _ h := nomatch h
  messages _ h := nomatch h
  queue_lt _ h := nomatch h
  nodup := List.nodup_nil

theorem foreign (h : FakeOk names hash s) (hm : m ∈ s.rtnMsgQueue) :
    m.localId ≠ s.engOrderTrack.length := by
  obtain ⟨j, ot, hj, hid, -⟩ := h.messages m hm
  have hlt := (List.getElem?_eq_some_iff.mp hj).1
  rw [hid]
  exact fun hx => absurd (Int.natCast_inj.mp hx) (Nat.ne_of_lt hlt)

/-- The last tick of an instrument plays no part. -/
theorem wall (h : FakeOk names hash s) (w : Hash → Option TTick) :
    FakeOk names hash { s with lastTickWall := w } :=
  ⟨h.length_eq, h.orders, h.named, h.messages, h.queue_lt, h.nodup⟩

theorem get (h : FakeOk names hash s) (hq : id ∈ s.queuedTrackId) :
    ∃ ot, s.engOrderTrack[id]? = some ot ∧ OrderOk s.rtnMsgQueue (id ∈ s.queuedTrackId) id ot :=
  ⟨_, List.getElem?_eq_getElem (h.queue_lt id hq),
    h.orders id _ (List.getElem?_eq_getElem (h.queue_lt id hq))⟩

/-- One message of an order, with its track rewritten; `q` is the queue behind it. -/
theorem post (h : FakeOk names hash s) (hid : s.engOrderTrack[id]? = some ot)
    {q : List Nat} (hlocal : m.localId = id) (hinstr : m.instr = ot.instr) (hdir : m.dir = ot.dir)
    (hstatic : ot'.instr = ot.instr ∧ ot'.instrHash = ot.instrHash ∧ ot'.dir = ot.dir)
    (hok : OrderOk (s.rtnMsgQueue ++ [m]) (id ∈ q) id ot')
    (hq : ∀ j, j ≠ id → (j ∈ q ↔ j ∈ s.queuedTrackId)) (hnodup : q.Nodup) :
    FakeOk names hash
      { s with
          engOrderTrack := s.engOrderTrack.set id ot'
          rtnMsgQueue := s.rtnMsgQueue ++ [m]
          queuedTrackId := q } := by
  have hlt := (List.getElem?_eq_some_iff.mp hid).1
  constructor
  · rw [List.length_set]
    exact h.length_eq
  · intro j x hx
    rcases getElem?_set_cases hx with ⟨rfl, rfl⟩ | ⟨hj, hx⟩
    · exact hok
    · have hne : m.localId ≠ j := by
        rw [hlocal]
        exact fun he => hj (Int.natCast_inj.mp he).symm
      exact ((h.orders j x hx).neutral (.inl hne)).congr (hq j hj) rfl rfl rfl rfl
  · intro j x hx
    rcases getElem?_set_cases hx with ⟨rfl, rfl⟩ | ⟨-, hx⟩
    · rw [hstatic.1, hstatic.2.1]
      exact h.named _ ot hid
    · exact h.named j x hx
  · intro x hx
    obtain ⟨j, y, hy, hj⟩ : ∃ (j : Nat) (y : OrderTrack), s.engOrderTrack[j]? = some y ∧
        x.localId = j ∧ x.instr = y.instr ∧ x.dir = y.dir := by
      rcases List.mem_append.mp hx with hx | hx
      · exact h.messages x hx
      · rw [List.mem_singleton.mp hx]
        exact ⟨id, ot, hid, hlocal, hinstr, hdir⟩
    by_cases hji : j = id
    · subst hji
      rw [hid, Option.some.injEq] at hy
      subst hy
      exact ⟨j, ot', List.getElem?_set_self hlt, hj.1, hj.2.1.trans hstatic.1.symm,
        hj.2.2.trans hstatic.2.2.symm⟩
    · exact ⟨j, y, by rw [List.getElem?_set_ne (Ne.symm hji)]; exact hy, hj⟩
  · intro j hj
    dsimp only
    rw [List.length_set]
    by_cases hji : j = id
    · exact hji ▸ hlt
    · exact h.queue_lt j ((hq j hji).mp hj)
  · exact hnodup

theorem trade (h : FakeOk names hash s) (hid : s.engOrderTrack[id]? = some ot)
    (hq : id ∈ s.queuedTrackId) {trade : Int} (hpos : 0 < trade) (hle : trade ≤ ot.vol - ot.volTraded)
    (price : ℚ) : FakeOk names hash (s.traded id ot trade price) := by
  refine h.post hid rfl rfl rfl ⟨rfl, rfl, rfl⟩ ?_ ?_ ?_
  · refine (h.orders id ot hid).trade hq hpos hle ?_
    split
    · rename_i hfull
      simp [hfull]
    · rename_i hopen
      exact iff_of_true hq hopen
  · intro j hj
    split
    · simp [hj]
    · rfl
  · split
    · exact h.nodup.filter _
    · exact h.nodup

theorem matchQueued (h : FakeOk names hash s) (hq : id ∈ s.queuedTrackId) (tick : TTick) :
    FakeOk names hash (s.matchQueued id tick).1 := by
  obtain ⟨ot, hid, hok⟩ := h.get hq
  have hleft := (hok.queued_iff.mp hq).2.1
  rcases CTDHelperFake.matchQueued_spec hid hleft tick with heq | ⟨trade, price, hpos, hle, -, -, heq⟩
  · rw [heq]
    exact h
  · rw [heq]
    exact h.trade hid hq hpos hle price

/-- A new order, with its first messages. -/
theorem add (h : FakeOk names hash s) {track : OrderTrack} {ms : List RtnMsg} {q : List Nat}
    (hms : ∀ m ∈ ms, m.localId = s.engOrderTrack.length ∧ m.instr = ot.instr ∧ m.dir = ot.dir)
    (hok : OrderOk (s.rtnMsgQueue ++ ms) (s.engOrderTrack.length ∈ q) s.engOrderTrack.length ot)
    (hnamed : ot.instr ∈ names ∧ ot.instrHash = hash ot.instr)
    (hq : ∀ j, j ∈ q → j = s.engOrderTrack.length ∨ j ∈ s.queuedTrackId)
    (hq' : ∀ j, j ∈ s.queuedTrackId → j ∈ q) (hnodup : q.Nodup) :
    FakeOk names hash
      { s with
          orderTrack := s.orderTrack ++ [track]
          engOrderTrack := s.engOrderTrack ++ [ot]
          rtnMsgQueue := s.rtnMsgQueue ++ ms
          queuedTrackId := q } := by
  constructor
  · simp only [List.length_append, h.length_eq, List.length_singleton]
  · intro j x hx
    rcases getElem?_concat_cases hx with ⟨hj, hx⟩ | ⟨rfl, rfl⟩
    · have hne : ∀ m ∈ ms, m.localId ≠ j := by
        intro m hm hmj
        rw [(hms m hm).1] at hmj
        exact absurd (Int.natCast_inj.mp hmj) (Nat.ne_of_gt hj)
      refine ((h.orders j x hx).neutral_append fun m hm => .inl (hne m hm)).congr ?_ rfl rfl rfl rfl
      exact ⟨fun hjq => (hq j hjq).resolve_left (Nat.ne_of_lt hj), hq' j⟩
    · exact hok
  · intro j x hx
    rcases getElem?_concat_cases hx with ⟨-, hx⟩ | ⟨-, rfl⟩
    · exact h.named j x hx
    · exact hnamed
  · intro m hm
    rcases List.mem_append.mp hm with hm | hm
    · obtain ⟨j, x, hx, hj⟩ := h.messages m hm
      exact ⟨j, x, by rw [List.getElem?_append_left (List.getElem?_eq_some_iff.mp hx).1]; exact hx, hj⟩
    · exact ⟨_, ot, List.getElem?_concat_length, hms m hm⟩
  · intro j hj
    rw [List.length_append, List.length_singleton]
    rcases hq j hj with rfl | hj
    · exact Nat.lt_succ_self _
    · exact Nat.lt_succ_of_lt (h.queue_lt j hj)
  · exact hnodup

end FakeOk

/-! ### The loop of a tick -/

/-- What each match of a queued order of the instrument keeps, the loop keeps. -/
theorem tickLoop_ind {P : CTDHelperFake → TTick → Prop} {instr : String}
    (hstep : ∀ s tick id ot, FakeOk names hash s → id ∈ s.queuedTrackId →
      s.engOrderTrack[id]? = some ot → ot.instr = instr → P s tick →
      P (s.matchQueued id tick).1 (s.matchQueued id tick).2)
    (ids : List Nat) (s : CTDHelperFake) (tick : TTick) (hs : FakeOk names hash s) (hids : ids.Nodup)
    (hq : ∀ id ∈ ids, id ∈ s.queuedTrackId) (hP : P s tick) :
    FakeOk names hash (CTDHelperFake.tickLoop instr ids (s, tick)).1 ∧
      P (CTDHelperFake.tickLoop instr ids (s, tick)).1
        (CTDHelperFake.tickLoop instr ids (s, tick)).2 := by
  induction ids generalizing s tick with
  | nil => exact ⟨hs, hP⟩
  | cons id ids ih =>
    obtain ⟨hid, hids⟩ := List.nodup_cons.mp hids
    have hmem := hq id List.mem_cons_self
    obtain ⟨ot, hot, hok⟩ := hs.get hmem
    have htail : ∀ j ∈ ids, j ∈ s.queuedTrackId := fun j hj => hq j (List.mem_cons_of_mem id hj)
    unfold CTDHelperFake.tickLoop
    split
    · rw [CTDHelperFake.getEngOrderTrack_eq hot]
      split
      · rename_i hinstr
        refine ih (s.matchQueued id tick).1 (s.matchQueued id tick).2 (hs.matchQueued hmem tick) hids ?_
          (hstep s tick id ot hs hmem hot hinstr hP)
        intro j hj
        have hne : j ≠ id := fun he => hid (he ▸ hj)
        have hleft := (hok.queued_iff.mp hmem).2.1
        rcases CTDHelperFake.matchQueued_spec hot hleft tick with heq | ⟨_, _, -, -, -, -, heq⟩
        · rw [heq]
          exact htail j hj
        · rw [heq]
          unfold CTDHelperFake.traded
          dsimp only
          split
          · exact List.mem_filter.mpr ⟨htail j hj, by simpa using hne⟩
          · exact htail j hj
      · exact ih s tick hs hids htail hP
    · exact ⟨hs, hP⟩

namespace CTDHelperFake

/-! ### Sending an order -/

/-- The client's track of a new order. -/
def newTrack (a : OrderArgs) (id : Nat) : OrderTrack :=
  { status := ods .send, instrHash := a.instrHash, instr := a.instr, price := a.price, vol := a.vol
    dir := a.dir, off := a.off, stgId := a.stgId, accId := a.accId, localId := id }

def acceptances (ot : OrderTrack) (id : Nat) : List RtnMsg :=
  [{ fillRtnMsg ot id with msgType := ods .tdSend }, { fillRtnMsg ot id with msgType := ods .accept },
    { fillRtnMsg ot id with msgType := ods .marketAccept }]

def refusal (ot : OrderTrack) (id : Nat) : RtnMsg :=
  { fillRtnMsg ot id with msgType := ods .reject, msg := "direction is invalid." }

/-- The order has been accepted and queued. -/
def entered (a : OrderArgs) (s : CTDHelperFake) : CTDHelperFake :=
  let id := s.orderTrack.length
  let ot := newTrack a id
  { s with
      orderTrack := s.orderTrack ++ [ot]
      engOrderTrack := s.engOrderTrack ++
        [{ ot with status := ot.status ||| (ods .tdSend ||| ods .accept ||| ods .marketAccept) }]
      rtnMsgQueue := s.rtnMsgQueue ++ acceptances ot id
      queuedTrackId := if id ∈ s.queuedTrackId then s.queuedTrackId
        else s.queuedTrackId.orderedInsert (· ≤ ·) id }

/-- The order has been refused. -/
def refused (a : OrderArgs) (s : CTDHelperFake) : CTDHelperFake :=
  let id := s.orderTrack.length
  let ot := newTrack a id
  { s with
      orderTrack := s.orderTrack ++ [ot]
      engOrderTrack := s.engOrderTrack ++ [{ ot with status := ot.status ||| ods .reject }]
      rtnMsgQueue := s.rtnMsgQueue ++ [refusal ot id] }

theorem sendOrder_invalid {a : OrderArgs} (h : ¬Dir.Valid a.dir) (s : CTDHelperFake) :
    s.sendOrder a = s.refused a := by
  have hdir : (newTrack a s.orderTrack.length).dir ≠ .buy ∧
      (newTrack a s.orderTrack.length).dir ≠ .sell := not_or.mp h
  have htrack := getD_concat s.orderTrack (newTrack a s.orderTrack.length) {}
  change doSendOrder s.orderTrack.length
    { s with orderTrack := s.orderTrack ++ [newTrack a s.orderTrack.length] } = _
  unfold doSendOrder
  dsimp only
  rw [htrack, if_pos hdir]
  rfl

theorem sendOrder_valid {a : OrderArgs} (h : Dir.Valid a.dir) (s : CTDHelperFake) :
    s.sendOrder a =
      match s.lastTickWall a.instrHash with
      | none => s.entered a
      | some tick =>
        let r := (s.entered a).matchQueued s.orderTrack.length tick
        { r.1 with lastTickWall := Function.update r.1.lastTickWall a.instrHash (some r.2) } := by
  have hdir : ¬((newTrack a s.orderTrack.length).dir ≠ .buy ∧
      (newTrack a s.orderTrack.length).dir ≠ .sell) := fun hn => not_or.mpr hn h
  have htrack := getD_concat s.orderTrack (newTrack a s.orderTrack.length) {}
  have hentered : insertQueued s.orderTrack.length (emplace
      { fillRtnMsg (newTrack a s.orderTrack.length) s.orderTrack.length with
          msgType := ods .marketAccept } (emplace
      { fillRtnMsg (newTrack a s.orderTrack.length) s.orderTrack.length with
          msgType := ods .accept } (emplace
      { fillRtnMsg (newTrack a s.orderTrack.length) s.orderTrack.length with
          msgType := ods .tdSend }
      { s with
          orderTrack := s.orderTrack ++ [newTrack a s.orderTrack.length]
          engOrderTrack := s.engOrderTrack ++
            [{ newTrack a s.orderTrack.length with
                status := (newTrack a s.orderTrack.length).status |||
                  (ods .tdSend ||| ods .accept ||| ods .marketAccept) }] }))) = s.entered a := by
    simp only [insertQueued, emplace, entered, acceptances, List.append_assoc, List.cons_append,
      List.nil_append]
  change doSendOrder s.orderTrack.length
    { s with orderTrack := s.orderTrack ++ [newTrack a s.orderTrack.length] } = _
  unfold doSendOrder
  dsimp only
  rw [htrack, if_neg hdir, hentered]
  change (match s.lastTickWall a.instrHash with | none => _ | some tick => _) = _
  cases s.lastTickWall a.instrHash with
  | none => rfl
  | some tick =>
    unfold matchQueued
    dsimp only
    split <;> rfl

end CTDHelperFake

/-! ### What a call keeps -/

namespace FakeOk

variable {s : CTDHelperFake} {id : Nat} {a : OrderArgs}

theorem id_not_queued (h : FakeOk names hash s) : s.orderTrack.length ∉ s.queuedTrackId := by
  intro hq
  have hlt := h.queue_lt _ hq
  rw [h.length_eq] at hlt
  exact Nat.lt_irrefl _ hlt

theorem entered (h : FakeOk names hash s) (hvol : 1 ≤ a.vol) (hname : a.instr ∈ names)
    (hhash : a.instrHash = hash a.instr) (hvalid : Dir.Valid a.dir) :
    FakeOk names hash (s.entered a) := by
  have hfresh : ∀ m ∈ s.rtnMsgQueue, m.localId ≠ s.engOrderTrack.length := fun m hm => h.foreign hm
  have hid := h.id_not_queued
  unfold CTDHelperFake.entered
  dsimp only
  rw [if_neg hid, h.length_eq]
  refine h.add ?_ ?_ ⟨hname, hhash⟩ ?_ ?_ ?_
  · intro m hm
    simp only [CTDHelperFake.acceptances, List.mem_cons, List.not_mem_nil, or_false] at hm
    rcases hm with rfl | rfl | rfl <;> exact ⟨rfl, rfl, rfl⟩
  · refine (OrderOk.fresh hfresh hvol rfl ?_ ?_).neutral_append ?_
    · refine iff_of_false ?_ (not_not.mpr hvalid)
      simp only [CTDHelperFake.newTrack]
      decide
    · exact iff_of_true ((List.mem_orderedInsert _).mpr (.inl rfl)) hvalid
    · intro m hm
      simp only [CTDHelperFake.acceptances, List.mem_cons, List.not_mem_nil, or_false] at hm
      rcases hm with rfl | rfl | rfl
      · exact .of_type .tdSend rfl (by decide) (by decide) (by decide)
      · exact .of_type .accept rfl (by decide) (by decide) (by decide)
      · exact .of_type .marketAccept rfl (by decide) (by decide) (by decide)
  · exact fun j hj => (List.mem_orderedInsert _).mp hj
  · exact fun j hj => (List.mem_orderedInsert _).mpr (.inr hj)
  · rw [← h.length_eq]
    exact (List.perm_orderedInsert _ _ _).nodup_iff.mpr (List.nodup_cons.mpr ⟨hid, h.nodup⟩)

theorem refused (h : FakeOk names hash s) (hvol : 1 ≤ a.vol) (hname : a.instr ∈ names)
    (hhash : a.instrHash = hash a.instr) (hinvalid : ¬Dir.Valid a.dir) :
    FakeOk names hash (s.refused a) := by
  have hfresh : ∀ m ∈ s.rtnMsgQueue, m.localId ≠ s.engOrderTrack.length := fun m hm => h.foreign hm
  have hid := h.id_not_queued
  unfold CTDHelperFake.refused
  dsimp only
  rw [h.length_eq] at hid ⊢
  refine h.add ?_ ?_ ⟨hname, hhash⟩ (fun j hj => .inr hj) (fun j hj => hj) h.nodup
  · intro m hm
    rw [List.mem_singleton.mp hm]
    exact ⟨rfl, rfl, rfl⟩
  · refine (OrderOk.fresh hfresh hvol rfl ?_ ?_).neutral ?_
    · refine iff_of_true ?_ hinvalid
      simp only [CTDHelperFake.newTrack]
      decide
    · exact iff_of_false hid hinvalid
    · refine .inr ⟨?_, ?_, fun _ => hinvalid⟩
      · simp only [CTDHelperFake.refusal]
        decide
      · simp only [CTDHelperFake.refusal]
        decide

theorem entered_queued (h : FakeOk names hash s) (a : OrderArgs) :
    s.orderTrack.length ∈ (s.entered a).queuedTrackId := by
  unfold CTDHelperFake.entered
  dsimp only
  rw [if_neg h.id_not_queued]
  exact (List.mem_orderedInsert _).mpr (.inl rfl)

theorem entered_get (h : FakeOk names hash s) (a : OrderArgs) :
    ∃ ot, (s.entered a).engOrderTrack[s.orderTrack.length]? = some ot ∧ ot.instr = a.instr := by
  unfold CTDHelperFake.entered
  dsimp only
  rw [h.length_eq]
  exact ⟨_, List.getElem?_concat_length, rfl⟩

theorem send (h : FakeOk names hash s) (hvol : 1 ≤ a.vol) (hname : a.instr ∈ names)
    (hhash : a.instrHash = hash a.instr) : FakeOk names hash (s.sendOrder a) := by
  by_cases hvalid : Dir.Valid a.dir
  · have hent := h.entered hvol hname hhash hvalid
    rw [CTDHelperFake.sendOrder_valid hvalid]
    cases s.lastTickWall a.instrHash with
    | none => exact hent
    | some tick =>
      exact (hent.matchQueued (h.entered_queued a) tick).wall _
  · rw [CTDHelperFake.sendOrder_invalid hvalid]
    exact h.refused hvol hname hhash hvalid

theorem del (h : FakeOk names hash s) (hid : id < s.engOrderTrack.length) :
    FakeOk names hash (s.doDelOrder id) := by
  have hot := List.getElem?_eq_getElem hid
  have hok := h.orders id _ hot
  have hq : ∀ j, j ≠ id → (j ∈ s.queuedTrackId.filter (· ≠ id) ↔ j ∈ s.queuedTrackId) :=
    fun j hj => by simp [hj]
  have hgone : id ∉ s.queuedTrackId.filter (· ≠ id) := by simp
  unfold CTDHelperFake.doDelOrder
  dsimp only
  rw [CTDHelperFake.getEngOrderTrack_eq hot]
  generalize s.engOrderTrack[id] = ot at hot hok
  split
  · rename_i hended
    have hout : id ∉ s.queuedTrackId := by
      rw [hok.queued_iff]
      rintro ⟨hvalid, hlt, hnone⟩
      rcases hended with hclosed | hfull
      · rcases hok.closed.mp hclosed with hinv | hfull | hsome
        · exact hinv hvalid
        · omega
        · exact hsome hnone
      · omega
    refine h.post hot rfl rfl rfl ⟨rfl, rfl, rfl⟩ ?_ hq (h.nodup.filter _)
    have hneutral : Neutral id ot.dir { fillRtnMsg ot id with msgType := ods .cancelReject } :=
      .of_type .cancelReject rfl (by decide) (by decide) (by decide)
    refine (hok.neutral hneutral).congr (iff_of_false hgone hout) rfl rfl rfl ?_
    simp only [Status.has, hasAny.or_left]
    rw [show hasAny (ods .cancelReject) (ods .closed) = false by decide, Bool.or_false]
  · rename_i hopen
    obtain ⟨hclosed, hlt⟩ := not_or.mp hopen
    rw [hok.closed] at hclosed
    obtain ⟨hvalid, -, hnone⟩ := not_or.mp hclosed |>.imp not_not.mp not_or.mp
    have hin : id ∈ s.queuedTrackId :=
      hok.queued_iff.mpr ⟨hvalid, not_le.mp hlt, not_not.mp hnone⟩
    exact h.post hot rfl rfl rfl ⟨rfl, rfl, rfl⟩ (hok.cancel hin rfl rfl rfl hgone) hq
      (h.nodup.filter _)

theorem tick (h : FakeOk names hash s) (pmd : TickData) : FakeOk names hash (s.onTick pmd) :=
  ((tickLoop_ind (P := fun _ _ => True) (fun _ _ _ _ _ _ _ _ _ => trivial) s.queuedTrackId s _ h
    h.nodup (fun _ hj => hj) trivial).1).wall _

end FakeOk

end NatFramework.Td
