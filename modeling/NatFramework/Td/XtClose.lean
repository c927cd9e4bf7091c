import Mathlib.Data.List.Dedup
import NatFramework.Account.Pending
import NatFramework.Td.CloseOnce
import NatFramework.Td.Executions
import NatFramework.Td.Xt

/-!
# How the Xt engine closes an order

The messages that carry the `CLOSED` bit come from eight places. Those for
`STOPPED`, `PREPARE_CANCELED` and `CANCELED` carry what is left of the order,
the others its whole volume; those of `onOrder` and for `JUNK` are returned
without a test of the status.

* `Answers`: what one callback does, one lemma for each.
* `once_iff`, `volume_iff`: the closing messages of a run.
* `closedRight_iff`: when there is at most one, with the right volume, after
  which the account has nothing of the order left.
-/
namespace NatFramework.Td

open Lib Account Engine

/-! ## Endings -/

/-- How a callback ends an order: its message carries the whole volume, with the
status tested before or not, or what is left. -/
inductive XtEnding where
  | whole (tested : Bool)
  | rest
  deriving DecidableEq, Repr

namespace XtEnding

def vol (t : OrderTrack) : XtEnding → Int
  | whole _ => t.vol
  | rest => t.vol - t.volTraded

def tested : XtEnding → Bool
  | whole b => b
  | rest => true

end XtEnding

namespace XtCallback

def ending : XtCallback → Option XtEnding
  | order _ _ (some _) => some (.whole false)
  | rtnOrderError _ => some (.whole true)
  | rtnOrder d =>
    match d.status with
    | .rejected | .froceCompleted | .checkFailed | .finished => some (.whole true)
    | .stopped => some .rest
    | .other => none
  | rtnOrderDetail d =>
    match d.orderStatus with
    | .prepareCanceled | .canceled => some .rest
    | .junk => some (.whole false)
    | _ => none
  | _ => none

/-- A callback of the order with the request id `id` and the front's id `oid`. A
deal has a volume. -/
def About (id oid : Int) : XtCallback → Prop
  | order r o err => r = id ∧ (err = none → o = oid)
  | rtnOrderError d => d.requestId = id
  | rtnOrder d => d.orderId = oid
  | rtnOrderDetail d => d.orderId = oid
  | rtnDealDetail d => d.orderId = oid ∧ 1 ≤ d.volume
  | cancel r _ => r = id
  | rtnCancelError d => d.requestId = id

/-- The engine finds the order. -/
def Finds (id : Int) (e : XtEngine) : XtCallback → Prop
  | rtnOrder d => e.order2request.lookup d.orderId = some id
  | rtnOrderDetail d => e.order2request.lookup d.orderId = some id
  | rtnDealDetail d => e.order2request.lookup d.orderId = some id
  | _ => e.checkRequestId id = true

/-- The engine returns a closing message. -/
structure Ends (id : Int) (e : XtEngine) (c : XtCallback) (k : XtEnding) : Prop where
  ending : c.ending = some k
  finds : c.Finds id e
  opened : k.tested = true → (e.getRequestTrack id).status.has .closed = false

/-- The engine counts a deal. -/
def Fills (id : Int) (e : XtEngine) (c : XtCallback) : Prop :=
  c.Finds id e ∧ ∃ d, c = rtnDealDetail d ∧ CString.strtoll d.tradeId ∉ e.remembered id

def deal : XtCallback → Option DealDetail
  | rtnDealDetail d => some d
  | _ => none

end XtCallback

/-- The dealt volume of an order: repetitions are equal records. -/
def dealt (cs : List XtCallback) : Int :=
  ((cs.filterMap XtCallback.deal).dedup.map DealDetail.volume).sum

def Passed.executes (m : Passed) : Bool := m.msg.msgType.has .execution

/-- The volume of a message that is an execution. -/
def Passed.execVol (m : Passed) : Int := if m.executes then m.msg.vol else 0

/-! ## One callback -/

/-- What the code keeps of an order, and what the account reads of it. -/
structure SameOrder (t t' : OrderTrack) : Prop where
  vol : t'.vol = t.vol
  instrHash : t'.instrHash = t.instrHash
  dir : t'.dir = t.dir
  off : t'.off = t.off

/-- What a callback of the order does to the engine: `ms` are its messages. -/
structure Answers (id : Int) (c : XtCallback) (e : XtEngine) (e' : Engine) (ms : List Passed) :
    Prop where
  passed : e'.passed = e.passed ++ ms
  written : e'.writer.frames.map (·.rtnMsg) = e.writer.frames.map (·.rtnMsg) ++ ms.map (·.msg)
  same : SameOrder (e.getRequestTrack id) (e'.getRequestTrack id)
  status : (e'.getRequestTrack id).status.FromTypes
  tracks : ∀ m ∈ ms, m.track = e'.getRequestTrack id
  types : ∀ m ∈ ms, m.msg.msgType.FromTypes
  once : ms.countP Passed.closes ≤ 1
  closes : (∃ m ∈ ms, m.closes = true) ↔ ∃ k, c.Ends id e k
  vol : ∀ m ∈ ms, m.closes = true → ∀ k, c.Ends id e k → m.msg.vol = k.vol (e.getRequestTrack id)
  traded : (e'.getRequestTrack id).volTraded =
    (e.getRequestTrack id).volTraded + (ms.map Passed.execVol).sum
  fills : c.Fills id e → (e.getRequestTrack id).volTraded < (e'.getRequestTrack id).volTraded
  held : ¬c.Fills id e → (e'.getRequestTrack id).volTraded = (e.getRequestTrack id).volTraded

section Answers

variable {id : Int} {c : XtCallback} {e : XtEngine}

theorem answers_nothing (hs : (e.getRequestTrack id).status.FromTypes)
    (he : ∀ k, ¬c.Ends id e k) (hf : ¬c.Fills id e) : Answers id c e e.toEngine [] where
  passed := (List.append_nil _).symm
  written := by simp
  same := ⟨rfl, rfl, rfl, rfl⟩
  status := hs
  tracks := by simp
  types := by simp
  once := by simp
  closes := by simpa using he
  vol := by simp
  traded := by simp
  fills h := absurd h hf
  held _ := rfl

theorem not_ends_of_none (hc : c.ending = none) (k : XtEnding) : ¬c.Ends id e k := fun h => by
  have := hc.symm.trans h.ending
  cases this

/-- A callback without an ending that counts no deal. -/
theorem answers_none (hs : (e.getRequestTrack id).status.FromTypes) (hc : c.ending = none)
    (hf : ¬c.Fills id e) : Answers id c e e.toEngine [] :=
  answers_nothing hs (not_ends_of_none hc) hf

/-- A callback that does not find the order. -/
theorem answers_lost (hs : (e.getRequestTrack id).status.FromTypes) (hc : ¬c.Finds id e) :
    Answers id c e e.toEngine [] :=
  answers_nothing hs (fun _ h => hc h.finds) fun h => hc h.1

theorem fromTypes_or {s : Status} (hs : s.FromTypes) (type : OrderRtnType) :
    (s ||| ods type).FromTypes := by
  obtain ⟨ts, rfl⟩ := hs
  exact ⟨type :: ts, by rw [BitVec.or_comm]; rfl⟩

/-- A callback that ends in `rtn`. -/
theorem answers_rtn (type : OrderRtnType) (hx : type ≠ .execution) {t : OrderTrack}
    {f : OrderTrack → RtnMsg → RtnMsg} (ht : SameOrder (e.getRequestTrack id) t)
    (hv : t.volTraded = (e.getRequestTrack id).volTraded)
    (hs : t.status = (e.getRequestTrack id).status)
    (hft : (e.getRequestTrack id).status.FromTypes) (hm : ∀ t m, (f t m).msgType = m.msgType)
    (hc : Status.has (ods type) .closed = true ↔ ∃ k, c.Ends id e k)
    (hk : ∀ k m, c.Ends id e k → m.vol = t.vol →
      (f { t with status := t.status ||| ods type } m).vol = k.vol (e.getRequestTrack id))
    (hf : ¬c.Fills id e) : ∃ ms, Answers id c e (e.rtn type id t f).toEngine ms := by
  have hpost : ∀ p : IOOrderRtn, ((e.post id { t with status := t.status ||| ods type } p)).getRequestTrack
      id = { t with status := t.status ||| ods type } := fun p => getRequestTrack_post _ _ _ _
  have hexec : ∀ a t' r, r.msgType = ods type → Passed.execVol ⟨a, t', r⟩ = 0 := by
    intro a t' r hr
    have h0 : Status.has (ods type) .execution = false := by
      revert hx
      cases type <;> decide
    simp [Passed.execVol, Passed.executes, hr, h0]
  refine ⟨_, rfl, ?_, ?_, ?_, ?_, ?_, List.countP_le_length, ?_, ?_, ?_, fun h => absurd h hf,
    fun _ => ?_⟩
  · simp [XtEngine.rtn, Engine.post, Engine.commit, Writer.commit, engineOnRtn, setRequestTrack]
  · rw [XtEngine.rtn, hpost]
    exact ⟨ht.vol, ht.instrHash, ht.dir, ht.off⟩
  · rw [XtEngine.rtn, hpost]
    exact fromTypes_or (hs ▸ hft) type
  · intro m hmem
    rw [List.mem_singleton.mp hmem, XtEngine.rtn, hpost]
  · intro m hmem
    rw [List.mem_singleton.mp hmem, hm]
    exact Status.fromTypes_ods type
  · rw [← hc]
    simp [Passed.closes, hm]
  · intro m hmem _ k hek
    rw [List.mem_singleton.mp hmem]
    exact hk k _ hek rfl
  · rw [XtEngine.rtn, hpost, List.map_singleton, List.sum_singleton, hexec _ _ _ (hm _ _), hv,
      add_zero]
  · rw [XtEngine.rtn, hpost, hv]

/-- What the fields set after the type can be. -/
inductive Fields : (OrderTrack → RtnMsg → RtnMsg) → XtEnding → Prop
  | failed (errid : Int) (msg : String) (b : Bool) : Fields (XtEngine.failed errid msg) (.whole b)
  | code (errid : Int) (b : Bool) : Fields (fun _ m => { m with errid }) (.whole b)
  | rest (errid : Int) (msg : String) : Fields (XtEngine.rest errid msg) .rest

/-- A callback that closes the order, unless the status is closed already. -/
theorem answers_ending (type : OrderRtnType) (hx : type ≠ .execution)
    (ht : Status.has (ods type) .closed = true) {f : OrderTrack → RtnMsg → RtnMsg} {k : XtEnding}
    (hf : Fields f k) (hs : (e.getRequestTrack id).status.FromTypes) (hc : c.ending = some k)
    (hfind : c.Finds id e) (ho : k.tested = true → (e.getRequestTrack id).status.has type = false)
    (hn : ¬c.Fills id e) :
    ∃ ms, Answers id c e (e.rtn type id (e.getRequestTrack id) f).toEngine ms := by
  have hends : c.Ends id e k := ⟨hc, hfind, fun h => Status.has_ending hs ht ▸ ho h⟩
  refine answers_rtn type hx ⟨rfl, rfl, rfl, rfl⟩ rfl rfl hs ?_ ?_ ?_ hn
  · cases hf <;> exact fun _ _ => rfl
  · exact ⟨fun _ => ⟨k, hends⟩, fun _ => ht⟩
  · intro k' m hk' hm
    have hkk : k' = k := by
      have := hk'.ending.symm.trans hc
      simpa using this
    subst hkk
    cases hf with
    | failed => exact hm
    | code => exact hm
    | rest => rfl

theorem answers_tested (type : OrderRtnType) (hx : type ≠ .execution)
    (ht : Status.has (ods type) .closed = true) {f : OrderTrack → RtnMsg → RtnMsg} {k : XtEnding}
    (hf : Fields f k) (hs : (e.getRequestTrack id).status.FromTypes) (hc : c.ending = some k)
    (hk : k.tested = true) (hfind : c.Finds id e) (hn : ¬c.Fills id e) :
    ∃ ms, Answers id c e
      (if (e.getRequestTrack id).status.has type then e
        else e.rtn type id (e.getRequestTrack id) f).toEngine ms := by
  split
  · rename_i hhas
    refine ⟨_, answers_nothing hs (fun k' h => ?_) hn⟩
    have hkk : some k' = some k := h.ending.symm.trans hc
    cases hkk
    have hopen := h.opened hk
    rw [← Status.has_ending hs ht, hhas] at hopen
    cases hopen
  · rename_i hhas
    exact answers_ending type hx ht hf hs hc hfind (fun _ => by simpa using hhas) hn

/-- A callback that returns a type which does not close. -/
theorem answers_other (type : OrderRtnType) (hx : type ≠ .execution)
    (ht : Status.has (ods type) .closed = false) {t : OrderTrack}
    {f : OrderTrack → RtnMsg → RtnMsg} (hm : ∀ t m, (f t m).msgType = m.msgType)
    (hsame : SameOrder (e.getRequestTrack id) t)
    (hv : t.volTraded = (e.getRequestTrack id).volTraded)
    (hst : t.status = (e.getRequestTrack id).status)
    (hs : (e.getRequestTrack id).status.FromTypes) (hc : c.ending = none) (hn : ¬c.Fills id e) :
    ∃ ms, Answers id c e (e.rtn type id t f).toEngine ms := by
  have hno : ∀ k, ¬c.Ends id e k := not_ends_of_none hc
  refine answers_rtn type hx hsame hv hst hs hm ?_ (fun k m h => absurd h (hno k)) hn
  rw [ht]
  simpa using hno

end Answers

/-! ### The callbacks -/

section Callbacks

variable {id : Int} {e : XtEngine}

/-- The front's order id `oid` stands for no other order. -/
def Knows (id oid : Int) (e : XtEngine) : Prop :=
  ∀ i, e.order2request.lookup oid = some i → i = id

theorem not_fills {c : XtCallback} (hc : ∀ d, c ≠ .rtnDealDetail d) : ¬c.Fills id e :=
  fun ⟨_, d, hd, _⟩ => hc d hd

theorem answers_onOrder (hs : (e.getRequestTrack id).status.FromTypes) (oid : Int)
    (err : Option RspInfoField) :
    ∃ ms, Answers id (.order id oid err) e (e.onOrder id oid err).toEngine ms := by
  unfold XtEngine.onOrder
  have hn : ¬(XtCallback.order id oid err).Fills id e := not_fills fun _ h => by cases h
  split
  · rename_i hr
    cases err with
    | none =>
      exact answers_other .accept (by decide) (by decide) (fun _ _ => rfl) ⟨rfl, rfl, rfl, rfl⟩ rfl rfl
        hs rfl hn
    | some err =>
      exact answers_ending .reject (by decide) (by decide) (.failed _ _ false) hs rfl hr
        (fun h => by cases h) hn
  · rename_i hr
    exact ⟨[], answers_lost hs hr⟩

theorem answers_onRtnOrderError (hs : (e.getRequestTrack id).status.FromTypes) (d : XtErrorField)
    (hid : d.requestId = id) :
    ∃ ms, Answers id (.rtnOrderError d) e (e.onRtnOrderError d).toEngine ms := by
  subst hid
  unfold XtEngine.onRtnOrderError
  have hn : ¬(XtCallback.rtnOrderError d).Fills d.requestId e := not_fills fun _ h => by cases h
  split
  · rename_i hr
    exact answers_tested .reject (by decide) (by decide) (.failed _ _ true) hs rfl rfl hr hn
  · rename_i hr
    exact ⟨[], answers_lost hs hr⟩

theorem answers_onRtnOrder (hs : (e.getRequestTrack id).status.FromTypes) (d : OrderInfo)
    (hk : Knows id d.orderId e) : ∃ ms, Answers id (.rtnOrder d) e (e.onRtnOrder d).toEngine ms := by
  unfold XtEngine.onRtnOrder
  have hn : ¬(XtCallback.rtnOrder d).Fills id e := not_fills fun _ h => by cases h
  split
  · rename_i hl
    exact ⟨[], answers_lost hs fun h => by rw [XtCallback.Finds, hl] at h; cases h⟩
  · rename_i i hl
    obtain rfl := hk i hl
    have hend : (XtCallback.rtnOrder d).ending = match d.status with
        | .rejected | .froceCompleted | .checkFailed | .finished => some (.whole true)
        | .stopped => some .rest
        | .other => none := rfl
    dsimp only
    split <;> rename_i hst <;> rw [hst] at hend
    · exact answers_tested .reject (by decide) (by decide) (.failed _ _ true) hs hend rfl hl hn
    · exact answers_tested .reject (by decide) (by decide) (.failed _ _ true) hs hend rfl hl hn
    · exact answers_tested .reject (by decide) (by decide) (.failed _ _ true) hs hend rfl hl hn
    · exact answers_tested .closed (by decide) (by decide) (.failed _ _ true) hs hend rfl hl hn
    · exact answers_tested .canceled (by decide) (by decide) (.rest _ _) hs hend rfl hl hn
    · exact ⟨[], answers_none hs hend hn⟩

/-- The front reports the order as filled: the track is closed without a message. -/
theorem answers_succeeded {c : XtCallback} (hs : (e.getRequestTrack id).status.FromTypes)
    (hc : c.ending = none) (hn : ¬c.Fills id e) :
    Answers id c e (e.setRequestTrack id
      { e.getRequestTrack id with
        status := (e.getRequestTrack id).status ||| (ods .execution ||| ods .closed) }) [] where
  passed := (List.append_nil _).symm
  written := by simp [setRequestTrack]
  same := by
    rw [getRequestTrack_set]
    exact ⟨rfl, rfl, rfl, rfl⟩
  status := by
    rw [getRequestTrack_set, ← BitVec.or_assoc]
    exact fromTypes_or (fromTypes_or hs .execution) .closed
  tracks := by simp
  types := by simp
  once := by simp
  closes := by simpa using not_ends_of_none hc
  vol := by simp
  traded := by simp
  fills h := absurd h hn
  held _ := by rw [getRequestTrack_set]

theorem answers_onRtnOrderDetail (hs : (e.getRequestTrack id).status.FromTypes) (d : OrderDetail)
    (hk : Knows id d.orderId e) :
    ∃ ms, Answers id (.rtnOrderDetail d) e (e.onRtnOrderDetail d).toEngine ms := by
  unfold XtEngine.onRtnOrderDetail
  have hn : ¬(XtCallback.rtnOrderDetail d).Fills id e := not_fills fun _ h => by cases h
  split
  · rename_i hl
    exact ⟨[], answers_lost hs fun h => by rw [XtCallback.Finds, hl] at h; cases h⟩
  · rename_i i hl
    obtain rfl := hk i hl
    have hend : (XtCallback.rtnOrderDetail d).ending = match d.orderStatus with
        | .prepareCanceled | .canceled => some .rest
        | .junk => some (.whole false)
        | _ => none := rfl
    generalize d.orderStatus = st at hend
    dsimp only
    cases st with
    | succeeded => exact ⟨[], answers_succeeded hs hend hn⟩
    | prepareCanceled =>
      exact answers_tested .canceled (by decide) (by decide) (.rest _ _) hs hend rfl hl hn
    | canceled => exact answers_tested .canceled (by decide) (by decide) (.rest _ _) hs hend rfl hl hn
    | junk =>
      exact answers_ending .marketReject (by decide) (by decide) (.code _ false) hs hend hl
        (fun h => by cases h) hn
    | other => exact ⟨[], answers_none hs hend hn⟩
    | _ =>
      exact answers_other .marketAccept (by decide) (by decide) (fun _ _ => rfl) ⟨rfl, rfl, rfl, rfl⟩
        rfl rfl hs hend hn

theorem filled_same (v : Int) (px : ℚ) (t : OrderTrack) : SameOrder t (filled v px t) := by
  unfold filled
  dsimp only
  split <;> exact ⟨rfl, rfl, rfl, rfl⟩

theorem filled_fromTypes {t : OrderTrack} (hs : t.status.FromTypes) (v : Int) (px : ℚ) :
    (filled v px t).status.FromTypes := by
  unfold filled
  dsimp only
  split
  · exact fromTypes_or (fromTypes_or hs .execution) .closed
  · exact fromTypes_or hs .execution

theorem answers_onRtnDealDetail (hs : (e.getRequestTrack id).status.FromTypes) (d : DealDetail)
    (hk : Knows id d.orderId e) (hv : 1 ≤ d.volume) :
    ∃ ms, Answers id (.rtnDealDetail d) e (e.onRtnDealDetail d).toEngine ms := by
  unfold XtEngine.onRtnDealDetail
  have hend : (XtCallback.rtnDealDetail d).ending = none := rfl
  split
  · rename_i hl
    exact ⟨[], answers_lost hs fun h => by rw [XtCallback.Finds, hl] at h; cases h⟩
  · rename_i i hl
    obtain rfl := hk i hl
    by_cases hmem : CString.strtoll d.tradeId ∈ e.remembered i
    · rw [testOtId_of_mem hmem]
      refine ⟨[], answers_none hs hend ?_⟩
      rintro ⟨-, d', hd, hnot⟩
      cases hd
      exact hnot hmem
    · have hfills : (XtCallback.rtnDealDetail d).Fills i e := ⟨hl, d, rfl, hmem⟩
      have hno : ∀ k, ¬(XtCallback.rtnDealDetail d).Ends i e k := not_ends_of_none hend
      rw [testOtId_of_not_mem hmem]
      dsimp only
      refine ⟨_, rfl, ?_, ?_, ?_, ?_, ?_, List.countP_le_length, ?_, ?_, ?_, fun _ => ?_,
        fun h => absurd hfills h⟩
      · simp [Engine.post, Engine.commit, Writer.commit, engineOnRtn, setRequestTrack, testOtId]
      · rw [getRequestTrack_post]
        exact filled_same _ _ _
      · rw [getRequestTrack_post]
        exact filled_fromTypes hs _ _
      · intro m hm
        rw [List.mem_singleton.mp hm, getRequestTrack_post]
      · intro m hm
        rw [List.mem_singleton.mp hm]
        exact Status.fromTypes_ods .execution
      · have hx : Status.has (ods .execution) .closed = false := by decide
        simpa [Passed.closes, hx] using hno
      · exact fun m _ _ k h => absurd h (hno k)
      · have hx : Status.has (ods .execution) .execution = true := by decide
        rw [getRequestTrack_post, filled_volTraded]
        simp [Passed.execVol, Passed.executes, hx]
      · rw [getRequestTrack_post, filled_volTraded]
        omega

theorem answers_onCancel (hs : (e.getRequestTrack id).status.FromTypes) (err : Option RspInfoField) :
    ∃ ms, Answers id (.cancel id err) e (e.onCancel id err).toEngine ms := by
  unfold XtEngine.onCancel
  have hn : ¬(XtCallback.cancel id err).Fills id e := not_fills fun _ h => by cases h
  split
  · cases err with
    | none => exact ⟨[], answers_none hs rfl hn⟩
    | some err =>
      exact answers_other .cancelReject (by decide) (by decide) (fun _ _ => rfl) ⟨rfl, rfl, rfl, rfl⟩
        rfl rfl hs rfl hn
  · exact ⟨[], answers_none hs rfl hn⟩

theorem answers_onRtnCancelError (hs : (e.getRequestTrack id).status.FromTypes) (d : XtErrorField)
    (hid : d.requestId = id) :
    ∃ ms, Answers id (.rtnCancelError d) e (e.onRtnCancelError d).toEngine ms := by
  subst hid
  unfold XtEngine.onRtnCancelError
  have hn : ¬(XtCallback.rtnCancelError d).Fills d.requestId e := not_fills fun _ h => by cases h
  split
  · dsimp only
    split
    · exact answers_other .cancelReject (by decide) (by decide) (fun _ _ => rfl) ⟨rfl, rfl, rfl, rfl⟩
        rfl rfl hs rfl hn
    · exact ⟨[], answers_none hs rfl hn⟩
  · exact ⟨[], answers_none hs rfl hn⟩

theorem xt_step {oid : Int} (hs : (e.getRequestTrack id).status.FromTypes) (hk : Knows id oid e)
    (c : XtCallback) (hc : c.About id oid) : ∃ ms, Answers id c e (c.apply e).toEngine ms := by
  cases c with
  | order r o err =>
    obtain ⟨rfl, -⟩ := hc
    exact answers_onOrder hs o err
  | rtnOrderError d => exact answers_onRtnOrderError hs d hc
  | rtnOrder d =>
    obtain rfl := hc
    exact answers_onRtnOrder hs d hk
  | rtnOrderDetail d =>
    obtain rfl := hc
    exact answers_onRtnOrderDetail hs d hk
  | rtnDealDetail d =>
    obtain ⟨rfl, hv⟩ := hc
    exact answers_onRtnDealDetail hs d hk hv
  | cancel r err =>
    obtain rfl := hc
    exact answers_onCancel hs err
  | rtnCancelError d => exact answers_onRtnCancelError hs d hc

/-- No callback of the order gives its front's id to another request. -/
theorem Knows.apply {oid : Int} (hk : Knows id oid e) (c : XtCallback) (hc : c.About id oid) :
    Knows id oid (c.apply e) := by
  cases c with
  | order r o err =>
    obtain ⟨rfl, ho⟩ := hc
    unfold XtCallback.apply XtEngine.onOrder
    dsimp only
    split
    · cases err with
      | none =>
        obtain rfl := ho rfl
        intro i hi
        dsimp only at hi
        rw [UMap.lookup_insert_ite, if_pos rfl] at hi
        exact (Option.some.inj hi).symm
      | some err => exact hk
    · exact hk
  | rtnOrderError d =>
    unfold XtCallback.apply XtEngine.onRtnOrderError
    dsimp only
    split
    · split <;> exact hk
    · exact hk
  | rtnOrder d =>
    unfold XtCallback.apply XtEngine.onRtnOrder
    dsimp only
    split
    · exact hk
    · split <;> first | exact hk | (split <;> exact hk)
  | rtnOrderDetail d =>
    unfold XtCallback.apply XtEngine.onRtnOrderDetail
    dsimp only
    split
    · exact hk
    · split <;> first | exact hk | (split <;> exact hk)
  | rtnDealDetail d =>
    unfold XtCallback.apply XtEngine.onRtnDealDetail
    dsimp only
    split
    · exact hk
    · split <;> exact hk
  | cancel r err =>
    unfold XtCallback.apply XtEngine.onCancel
    dsimp only
    split
    · cases err <;> exact hk
    · exact hk
  | rtnCancelError d =>
    unfold XtCallback.apply XtEngine.onRtnCancelError
    dsimp only
    split
    · split <;> exact hk
    · exact hk

end Callbacks

/-! ## The account -/

/-- The messages the engine passes to the account. -/
def onRtns (info : TradeBaseInfo) (ms : List Passed) (a : AccBase) : AccBase :=
  ms.foldl (fun a m => a.onRtn info m.track m.msg) a

/-- How often the account counts the order out. -/
def Passed.countedOut (m : Passed) : Int :=
  (if hasAny m.msg.msgType AccBase.cxlMask then 1 else 0) +
    if m.executes ∧ m.track.vol = m.track.volTraded then 1 else 0

/-- What messages about one order take from its pending volume and from the
unfilled orders. -/
theorem pending_onRtns {info : TradeBaseInfo} (hv : info.VolMultiplesOk) {t : OrderTrack}
    {i : InstrumentInfo} (hf : info.find t.instrHash = some i) {ms : List Passed}
    (hms : ∀ m ∈ ms, SameOrder t m.track) {a : AccBase} (hl : AccBase.Linked info a) (l : Leg) :
    l.pendVol ((onRtns info ms a).instrAt t.instrHash).unitVol =
        l.pendVol (a.instrAt t.instrHash).unitVol -
          (if Leg.of t.dir t.off = some l then (ms.map fun m => taken m.msg).sum else 0) ∧
      (onRtns info ms a).modAcc.unfilledOrderCnt =
        a.modAcc.unfilledOrderCnt - (ms.map Passed.countedOut).sum := by
  induction ms generalizing a with
  | nil => simp [onRtns]
  | cons m ms ih =>
    have hm := hms m List.mem_cons_self
    have hf' : info.find m.track.instrHash = some i := hm.instrHash ▸ hf
    obtain ⟨h1, h2⟩ := ih (fun m' h' => hms m' (List.mem_cons_of_mem m h'))
      (hl.onInstr (h := m.track.instrHash) hv (AccBase.keeps_rtn m.track m.msg))
    have hrun : onRtns info (m :: ms) a = onRtns info ms (a.onRtn info m.track m.msg) := rfl
    rw [hrun]
    constructor
    · refine h1.trans ?_
      rw [hl.onInstr_instrAt hf' (hv _ i hf'), if_pos hm.instrHash.symm, pendVol_rtn,
        AccBase.booksAt_unitVol, hm.dir, hm.off, hm.instrHash, List.map_cons, List.sum_cons]
      split <;> omega
    · refine h2.trans ?_
      rw [hl.onInstr_modAcc hf' (hv _ i hf'), unfilled_rtn, List.map_cons, List.sum_cons,
        Passed.countedOut]
      change a.modAcc.unfilledOrderCnt - _ - _ - _ = _
      unfold Passed.executes
      omega

/-! ## Runs -/

/-- An order the front has not answered yet. -/
structure Unanswered (id oid : Int) (e : XtEngine) : Prop where
  passed : e.passed = []
  volTraded : (e.getRequestTrack id).volTraded = 0
  status : (e.getRequestTrack id).status.FromTypes
  knows : Knows id oid e

/-- The callbacks of one order, in any order and with any repetitions. -/
def xt (id oid : Int) : Sys XtEngine XtCallback where
  start := Unanswered id oid
  ok _ c := c.About id oid
  next e c := c.apply e

section Run

variable (id oid : Int) (e : XtEngine)

/-- A closing message has been returned. -/
def Ended (cs : List XtCallback) : Prop :=
  AtSome (fun pre c => ∃ k, c.Ends id ((xt id oid).exec e pre) k) cs

/-- What the messages of a run say about its order. -/
structure Traces (cs : List XtCallback) (s : XtEngine) : Prop where
  written : s.writer.frames.map (·.rtnMsg) =
    e.writer.frames.map (·.rtnMsg) ++ s.passed.map (·.msg)
  same : SameOrder (e.getRequestTrack id) (s.getRequestTrack id)
  status : (s.getRequestTrack id).status.FromTypes
  knows : Knows id oid s
  types : ∀ m ∈ s.passed, m.msg.msgType.FromTypes
  tracks : ∀ m ∈ s.passed, SameOrder (e.getRequestTrack id) m.track
  below : ∀ m ∈ s.passed, m.track.volTraded ≤ (s.getRequestTrack id).volTraded
  traded : (s.getRequestTrack id).volTraded = (s.passed.map Passed.execVol).sum
  closes : (∃ m ∈ s.passed, m.closes = true) ↔ Ended id oid e cs

variable {id oid e}

theorem SameOrder.trans {t t' t'' : OrderTrack} (h : SameOrder t t') (h' : SameOrder t' t'') :
    SameOrder t t'' :=
  ⟨h'.vol.trans h.vol, h'.instrHash.trans h.instrHash, h'.dir.trans h.dir, h'.off.trans h.off⟩

theorem Answers.volTraded_le {c : XtCallback} {e' : Engine} {ms : List Passed}
    (h : Answers id c e e' ms) : (e.getRequestTrack id).volTraded ≤ (e'.getRequestTrack id).volTraded := by
  by_cases hf : c.Fills id e
  · exact (h.fills hf).le
  · exact (h.held hf).ge

theorem Traces.next {cs : List XtCallback} {c : XtCallback} {ms : List Passed}
    (ht : Traces id oid e cs ((xt id oid).exec e cs)) (hc : c.About id oid)
    (h : Answers id c ((xt id oid).exec e cs) (c.apply ((xt id oid).exec e cs)).toEngine ms) :
    Traces id oid e (cs ++ [c]) (c.apply ((xt id oid).exec e cs)) := by
  have hmem : ∀ m ∈ (c.apply ((xt id oid).exec e cs)).passed,
      m ∈ ((xt id oid).exec e cs).passed ∨ m ∈ ms := fun m hm => by
    rw [h.passed] at hm
    exact List.mem_append.mp hm
  refine ⟨?_, ht.same.trans h.same, h.status, ht.knows.apply c hc, fun m hm => ?_, fun m hm => ?_,
    fun m hm => ?_, ?_, ?_⟩
  · rw [h.written, ht.written, h.passed, List.map_append, List.append_assoc]
  · exact (hmem m hm).elim (ht.types m) (h.types m)
  · rcases hmem m hm with hm | hm
    · exact ht.tracks m hm
    · rw [h.tracks m hm]
      exact ht.same.trans h.same
  · rcases hmem m hm with hm | hm
    · exact (ht.below m hm).trans h.volTraded_le
    · rw [h.tracks m hm]
  · rw [h.traded, ht.traded, h.passed, List.map_append, List.sum_append]
  · rw [Ended, atSome_concat, ← Ended, ← ht.closes, ← h.closes, h.passed]
    constructor
    · rintro ⟨m, hm, hcl⟩
      exact (List.mem_append.mp hm).imp (fun hm => ⟨m, hm, hcl⟩) fun hm => ⟨m, hm, hcl⟩
    · rintro (⟨m, hm, hcl⟩ | ⟨m, hm, hcl⟩)
      · exact ⟨m, List.mem_append_left _ hm, hcl⟩
      · exact ⟨m, List.mem_append_right _ hm, hcl⟩

theorem traces_run (he : Unanswered id oid e) {cs : List XtCallback}
    (hcs : ∀ c ∈ cs, c.About id oid) : Traces id oid e cs ((xt id oid).exec e cs) := by
  induction cs using List.reverseRecOn with
  | nil =>
    refine ⟨by simp [he.passed], ⟨rfl, rfl, rfl, rfl⟩, he.status, he.knows, ?_, ?_, ?_, ?_, ?_⟩
    · simp [he.passed]
    · simp [he.passed]
    · simp [he.passed]
    · simp [he.passed, he.volTraded]
    · simp [he.passed, Ended, atSome_nil]
  | append_singleton cs c ih =>
    have ht := ih fun x hx => hcs x (List.mem_append_left _ hx)
    have hc := hcs c (by simp)
    obtain ⟨ms, h⟩ := xt_step ht.status ht.knows c hc
    rw [Sys.exec_append]
    exact ht.next hc h

/-- The callback after a part of a run. -/
theorem answers_run (he : Unanswered id oid e) {cs : List XtCallback} {c : XtCallback}
    (hcs : ∀ x ∈ cs ++ [c], x.About id oid) :
    ∃ ms, Answers id c ((xt id oid).exec e cs) ((xt id oid).exec e (cs ++ [c])).toEngine ms := by
  have ht := traces_run he fun x hx => hcs x (List.mem_append_left _ hx)
  rw [Sys.exec_append]
  exact xt_step ht.status ht.knows c (hcs c (by simp))

/-- At most one message closes the order if each ending comes before the others. -/
theorem once_iff (he : Unanswered id oid e) {cs : List XtCallback}
    (hcs : ∀ c ∈ cs, c.About id oid) :
    ((xt id oid).exec e cs).passed.countP Passed.closes ≤ 1 ↔
      AtEach (fun pre c => ∀ k, c.Ends id ((xt id oid).exec e pre) k → ¬Ended id oid e pre) cs := by
  induction cs using List.reverseRecOn with
  | nil => simp [he.passed, atEach_nil]
  | append_singleton cs c ih =>
    have hpre : ∀ x ∈ cs, x.About id oid := fun x hx => hcs x (List.mem_append_left _ hx)
    obtain ⟨ms, h⟩ := answers_run he hcs
    have hold := (traces_run he hpre).closes
    rw [← List.countP_pos_iff] at hold
    have hnew := h.closes
    rw [← List.countP_pos_iff] at hnew
    have h1 := h.once
    rw [atEach_concat, ← ih hpre, h.passed, List.countP_append]
    constructor
    · intro hle
      refine ⟨by omega, fun k hk hend => ?_⟩
      have := hold.mpr hend
      have := hnew.mpr ⟨k, hk⟩
      omega
    · rintro ⟨hle, hfirst⟩
      by_cases hk : ∃ k, c.Ends id ((xt id oid).exec e cs) k
      · obtain ⟨k, hk⟩ := hk
        have := mt hold.mp (hfirst k hk)
        omega
      · have := mt hnew.mp hk
        omega

/-- Every closing message has the volume `v` if each ending has. -/
theorem volume_iff (he : Unanswered id oid e) (v : Int) {cs : List XtCallback}
    (hcs : ∀ c ∈ cs, c.About id oid) :
    (∀ m ∈ ((xt id oid).exec e cs).passed, m.closes = true → m.msg.vol = v) ↔
      AtEach (fun pre c => ∀ k, c.Ends id ((xt id oid).exec e pre) k →
        k.vol (((xt id oid).exec e pre).getRequestTrack id) = v) cs := by
  induction cs using List.reverseRecOn with
  | nil => simp [he.passed, atEach_nil]
  | append_singleton cs c ih =>
    obtain ⟨ms, h⟩ := answers_run he hcs
    rw [atEach_concat, ← ih fun x hx => hcs x (List.mem_append_left _ hx), h.passed]
    constructor
    · intro hv
      refine ⟨fun m hm => hv m (List.mem_append_left _ hm), fun k hk => ?_⟩
      obtain ⟨m, hm, hcl⟩ := h.closes.mpr ⟨k, hk⟩
      rw [← h.vol m hm hcl k hk]
      exact hv m (List.mem_append_right _ hm) hcl
    · rintro ⟨hold, hnew⟩ m hm hcl
      rcases List.mem_append.mp hm with hm | hm
      · exact hold m hm hcl
      · obtain ⟨k, hk⟩ := h.closes.mp ⟨m, hm, hcl⟩
        rw [h.vol m hm hcl k hk]
        exact hnew k hk

theorem volTraded_le_run (he : Unanswered id oid e) (pre post : List XtCallback)
    (hcs : ∀ c ∈ pre ++ post, c.About id oid) :
    (((xt id oid).exec e pre).getRequestTrack id).volTraded ≤
      (((xt id oid).exec e (pre ++ post)).getRequestTrack id).volTraded := by
  induction post using List.reverseRecOn with
  | nil => rw [List.append_nil]
  | append_singleton post c ih =>
    rw [← List.append_assoc] at hcs ⊢
    obtain ⟨ms, h⟩ := answers_run he hcs
    exact (ih fun x hx => hcs x (List.mem_append_left _ hx)).trans h.volTraded_le

/-- A part of a run in which no deal is counted. -/
theorem volTraded_eq_run (he : Unanswered id oid e) (pre : List XtCallback) {post : List XtCallback}
    (hcs : ∀ c ∈ pre ++ post, c.About id oid)
    (hf : AtEach (fun p c => ¬c.Fills id ((xt id oid).exec e (pre ++ p))) post) :
    (((xt id oid).exec e (pre ++ post)).getRequestTrack id).volTraded =
      (((xt id oid).exec e pre).getRequestTrack id).volTraded := by
  induction post using List.reverseRecOn with
  | nil => rw [List.append_nil]
  | append_singleton post c ih =>
    rw [← List.append_assoc] at hcs ⊢
    rw [atEach_concat] at hf
    obtain ⟨ms, h⟩ := answers_run he hcs
    rw [h.held hf.2]
    exact ih (fun x hx => hcs x (List.mem_append_left _ hx)) hf.1

end Run

/-! ## Closed once, with what is left -/

section Sums

variable {ms : List Passed} (ht : ∀ m ∈ ms, m.msg.msgType.FromTypes)

include ht in
/-- Closing messages of the volume `v` and executions. -/
theorem sum_taken {v : Int} (hv : ∀ m ∈ ms, m.closes = true → m.msg.vol = v) :
    (ms.map fun m => taken m.msg).sum =
      ms.countP Passed.closes * v + (ms.map Passed.execVol).sum := by
  induction ms with
  | nil => simp
  | cons m ms ih =>
    have hm := ih (fun x hx => ht x (List.mem_cons_of_mem m hx))
      fun x hx => hv x (List.mem_cons_of_mem m hx)
    have hmask : hasAny m.msg.msgType AccBase.cxlMask = m.closes :=
      AccBase.hasAny_cxlMask (ht m List.mem_cons_self)
    have hexec : m.msg.msgType.has .execution = m.executes := rfl
    rw [List.map_cons, List.sum_cons, hm, List.map_cons, List.sum_cons, List.countP_cons, taken,
      Passed.execVol, hmask, hexec]
    by_cases hcl : m.closes = true
    · rw [if_pos hcl, if_pos hcl, hv m List.mem_cons_self hcl]
      push_cast
      ring
    · rw [if_neg hcl, if_neg hcl]
      push_cast
      ring

include ht in
/-- No execution completes the order. -/
theorem sum_countedOut (hx : ∀ m ∈ ms, m.track.vol ≠ m.track.volTraded) :
    (ms.map Passed.countedOut).sum = ms.countP Passed.closes := by
  induction ms with
  | nil => rfl
  | cons m ms ih =>
    have hm := ih (fun x hx => ht x (List.mem_cons_of_mem m hx))
      fun x hx' => hx x (List.mem_cons_of_mem m hx')
    have hmask : hasAny m.msg.msgType AccBase.cxlMask = m.closes :=
      AccBase.hasAny_cxlMask (ht m List.mem_cons_self)
    have hopen : ¬(m.executes = true ∧ m.track.vol = m.track.volTraded) :=
      fun h => hx m List.mem_cons_self h.2
    rw [List.map_cons, List.sum_cons, hm, List.countP_cons, Passed.countedOut, hmask, if_neg hopen]
    split
    · push_cast
      ring
    · push_cast
      ring

end Sums

/-- A deal is part of the dealt volume. -/
theorem dealt_pos {id oid : Int} {cs : List XtCallback} (hcs : ∀ c ∈ cs, c.About id oid)
    {d : DealDetail} (hd : XtCallback.rtnDealDetail d ∈ cs) : 0 < dealt cs := by
  have hall : ∀ x ∈ (cs.filterMap XtCallback.deal).dedup.map DealDetail.volume, 1 ≤ x := by
    intro x hx
    obtain ⟨d', hd', rfl⟩ := List.mem_map.mp hx
    obtain ⟨c, hc, hcd⟩ := List.mem_filterMap.mp (List.mem_dedup.mp hd')
    cases c with
    | rtnDealDetail d'' =>
      obtain rfl := Option.some.inj hcd
      exact (hcs _ hc).2
    | _ => cases hcd
  have hmem : d.volume ∈ (cs.filterMap XtCallback.deal).dedup.map DealDetail.volume :=
    List.mem_map_of_mem (List.mem_dedup.mpr (List.mem_filterMap.mpr ⟨_, hd, rfl⟩))
  have hle := List.single_le_sum (fun x hx => by have := hall x hx; omega) _ hmem
  have := hall _ hmem
  unfold dealt
  omega

section Right

variable (id oid : Int) (e : XtEngine) (D : Int)

/-- At most one message closes the order, with what its deals `D` leave of it,
and then the account has nothing of it left: from what the order added when it
was issued, its volume is gone from the pending volume and one order from the
unfilled ones. -/
structure ClosedRight (s : XtEngine) : Prop where
  written : s.writer.frames.map (·.rtnMsg) =
    e.writer.frames.map (·.rtnMsg) ++ s.passed.map (·.msg)
  once : s.passed.countP Passed.closes ≤ 1
  volume : ∀ m ∈ s.passed, m.closes = true → m.msg.vol = (e.getRequestTrack id).vol - D
  remains : ∀ m ∈ s.passed, m.closes = true → D < (e.getRequestTrack id).vol
  settled : (∃ m ∈ s.passed, m.closes = true) →
    (s.passed.map fun m => taken m.msg).sum = (e.getRequestTrack id).vol ∧
      (s.passed.map Passed.countedOut).sum = 1
  account : (∃ m ∈ s.passed, m.closes = true) → ∀ (info : TradeBaseInfo) (a : AccBase),
    info.VolMultiplesOk → AccBase.Linked info a →
      (info.find (e.getRequestTrack id).instrHash).isSome = true →
        (∀ l, Leg.of (e.getRequestTrack id).dir (e.getRequestTrack id).off = some l →
          l.pendVol ((onRtns info s.passed a).instrAt (e.getRequestTrack id).instrHash).unitVol =
            l.pendVol (a.instrAt (e.getRequestTrack id).instrHash).unitVol -
              (e.getRequestTrack id).vol) ∧
          (onRtns info s.passed a).modAcc.unfilledOrderCnt = a.modAcc.unfilledOrderCnt - 1

/-- What a callback must find: it ends the order first, with lots left, with the
whole volume only if there are no deals, with what is left only if all deals are
counted; and no deal is counted after the end. -/
structure Timely (pre : List XtCallback) (c : XtCallback) : Prop where
  first : ∀ k, c.Ends id ((xt id oid).exec e pre) k → ¬Ended id oid e pre
  remains : ∀ k, c.Ends id ((xt id oid).exec e pre) k → D < (e.getRequestTrack id).vol
  whole : ∀ b, c.Ends id ((xt id oid).exec e pre) (.whole b) → D = 0
  rest : c.Ends id ((xt id oid).exec e pre) .rest →
    (((xt id oid).exec e pre).getRequestTrack id).volTraded = D
  fill : c.Fills id ((xt id oid).exec e pre) → ¬Ended id oid e pre

/-- The run closes its order right, with the volume of its deals. -/
def RightRun (cs : List XtCallback) : Prop :=
  ClosedRight id e (dealt cs) ((xt id oid).exec e cs)

variable {id oid e}

theorem not_ends_of_fills {c : XtCallback} {s : XtEngine} (hf : c.Fills id s) (k : XtEnding) :
    ¬c.Ends id s k := by
  obtain ⟨-, d, rfl, -⟩ := hf
  exact not_ends_of_none rfl k

theorem ended_append {pre post : List XtCallback} {c : XtCallback} {k : XtEnding}
    (h : c.Ends id ((xt id oid).exec e pre) k) : Ended id oid e (pre ++ c :: post) :=
  ⟨pre, c, post, rfl, k, h⟩

/-- All deals are counted when the order has been ended in time. -/
theorem volTraded_of_timely (he : Unanswered id oid e) {cs : List XtCallback}
    (hcs : ∀ c ∈ cs, c.About id oid) (ht : AtEach (Timely id oid e (dealt cs)) cs)
    (hend : Ended id oid e cs) :
    (((xt id oid).exec e cs).getRequestTrack id).volTraded = dealt cs := by
  obtain ⟨pre, c, post, rfl, k, hk⟩ := hend
  have hstep := ht pre c post rfl
  cases k with
  | whole b =>
    have h0 : dealt (pre ++ c :: post) = 0 := hstep.whole b hk
    have hnone : AtEach (fun p x => ¬x.Fills id ((xt id oid).exec e ([] ++ p))) (pre ++ c :: post) := by
      rintro p x q heq ⟨-, d, rfl, -⟩
      have := dealt_pos hcs (d := d) (by rw [heq]; simp)
      omega
    rw [h0]
    exact (volTraded_eq_run he [] hcs hnone).trans he.volTraded
  | rest =>
    rw [← hstep.rest hk]
    refine volTraded_eq_run he pre hcs ?_
    intro p x q heq hf
    cases p with
    | nil =>
      obtain ⟨rfl, -⟩ := List.cons.inj heq
      rw [List.append_nil] at hf
      exact not_ends_of_fills hf _ hk
    | cons y p =>
      obtain ⟨rfl, rfl⟩ := List.cons.inj heq
      exact (ht (pre ++ c :: p) x q (by simp)).fill hf (ended_append hk)

/-- The closing message and the executions take the volume of the order exactly
if all deals are counted. -/
theorem sum_taken_run (he : Unanswered id oid e) {cs : List XtCallback}
    (hcs : ∀ c ∈ cs, c.About id oid)
    (hone : ((xt id oid).exec e cs).passed.countP Passed.closes ≤ 1)
    (hvol : ∀ m ∈ ((xt id oid).exec e cs).passed, m.closes = true →
      m.msg.vol = (e.getRequestTrack id).vol - D)
    (hany : ∃ m ∈ ((xt id oid).exec e cs).passed, m.closes = true) :
    (((xt id oid).exec e cs).passed.map fun m => taken m.msg).sum = (e.getRequestTrack id).vol - D +
      (((xt id oid).exec e cs).getRequestTrack id).volTraded := by
  have htr := traces_run he hcs
  have hpos := List.countP_pos_iff.mpr hany
  have hcount : ((xt id oid).exec e cs).passed.countP Passed.closes = 1 := by omega
  rw [sum_taken htr.types hvol, hcount, ← htr.traded, Nat.cast_one, one_mul]

/-- No deal is counted behind an ending that leaves the account settled. -/
theorem not_fills_of_settled (he : Unanswered id oid e) {pre post : List XtCallback}
    {c : XtCallback} (hcs : ∀ x ∈ pre ++ c :: post, x.About id oid)
    (htraded : (((xt id oid).exec e (pre ++ c :: post)).getRequestTrack id).volTraded =
      dealt (pre ++ c :: post))
    (hvol : AtEach (fun p x => ∀ k, x.Ends id ((xt id oid).exec e p) k →
      k.vol (((xt id oid).exec e p).getRequestTrack id) =
        (e.getRequestTrack id).vol - dealt (pre ++ c :: post)) (pre ++ c :: post))
    (hend : Ended id oid e pre) : ¬c.Fills id ((xt id oid).exec e pre) := by
  intro hf
  obtain ⟨p, x, q, rfl, k, hk⟩ := hend
  have hv := hvol p x (q ++ c :: post) (by simp) k hk
  have hp : ∀ y ∈ p, y.About id oid := fun y hy => hcs y (by simp [hy])
  have hsame := (traces_run he hp).same.vol
  have habout : ∀ y ∈ p ++ x :: q ++ [c], y.About id oid := fun y hy => hcs y (by
    simp only [List.mem_append, List.mem_cons, List.not_mem_nil] at hy ⊢
    tauto)
  obtain ⟨ms, hc⟩ := answers_run he habout
  have h1 := volTraded_le_run he p (x :: q) fun y hy => hcs y (List.mem_append_left _ hy)
  have h2 := hc.fills hf
  have h3 := volTraded_le_run he (p ++ x :: q ++ [c]) post (by simpa using hcs)
  have hcat : p ++ x :: q ++ [c] ++ post = p ++ x :: q ++ c :: post := by simp
  rw [hcat, htraded] at h3
  cases k with
  | whole b =>
    rw [XtEnding.vol, hsame] at hv
    obtain ⟨-, d, rfl, -⟩ := hf
    have := dealt_pos hcs (d := d) (by simp)
    omega
  | rest =>
    rw [XtEnding.vol, hsame] at hv
    omega

/-- **When the Xt engine closes an order once and for what is left of it.** The
dealt volume is that of all deals of the run. -/
theorem closedRight_iff (id oid : Int) (e : XtEngine) (he : Unanswered id oid e)
    (cs : List XtCallback) (hcs : ∀ c ∈ cs, c.About id oid) :
    RightRun id oid e cs ↔ AtEach (Timely id oid e (dealt cs)) cs := by
  have htr := traces_run he hcs
  constructor
  · intro h pre c post heq
    have hvol := (volume_iff he _ hcs).mp h.volume
    have hsame : (((xt id oid).exec e pre).getRequestTrack id).vol = (e.getRequestTrack id).vol :=
      (traces_run he fun x hx => hcs x (by rw [heq]; simp [hx])).same.vol
    refine ⟨(once_iff he hcs).mp h.once pre c post heq, fun k hk => ?_, fun b hk => ?_, fun hk => ?_,
      fun hf hend => ?_⟩
    · obtain ⟨m, hm, hcl⟩ := htr.closes.mpr (heq ▸ ended_append hk)
      exact h.remains m hm hcl
    · have hv := hvol pre c post heq _ hk
      rw [XtEnding.vol, hsame] at hv
      omega
    · have hv := hvol pre c post heq _ hk
      rw [XtEnding.vol, hsame] at hv
      omega
    · have hany : ∃ m ∈ ((xt id oid).exec e cs).passed, m.closes = true := by
        obtain ⟨p, x, q, rfl, k, hk⟩ := hend
        exact htr.closes.mpr ⟨p, x, q ++ c :: post, by simp [heq], k, hk⟩
      have hsum := sum_taken_run (dealt cs) he hcs h.once h.volume hany
      rw [(h.settled hany).1] at hsum
      subst heq
      exact not_fills_of_settled he hcs (by omega) hvol hend hf
  · intro ht
    have hended : (∃ m ∈ ((xt id oid).exec e cs).passed, m.closes = true) → Ended id oid e cs :=
      htr.closes.mp
    have honce := (once_iff he hcs).mpr fun pre c post heq => (ht pre c post heq).first
    have hvol : ∀ m ∈ ((xt id oid).exec e cs).passed, m.closes = true →
        m.msg.vol = (e.getRequestTrack id).vol - dealt cs := by
      refine (volume_iff he _ hcs).mpr fun pre c post heq k hk => ?_
      have hsame : (((xt id oid).exec e pre).getRequestTrack id).vol = (e.getRequestTrack id).vol :=
        (traces_run he fun x hx => hcs x (by rw [heq]; simp [hx])).same.vol
      have hstep := ht pre c post heq
      cases k with
      | whole b =>
        have := hstep.whole b hk
        rw [XtEnding.vol, hsame]
        omega
      | rest =>
        have := hstep.rest hk
        rw [XtEnding.vol, hsame]
        omega
    have hremains : Ended id oid e cs → dealt cs < (e.getRequestTrack id).vol := by
      rintro ⟨pre, c, post, heq, k, hk⟩
      exact (ht pre c post heq).remains k hk
    have hsettled : (∃ m ∈ ((xt id oid).exec e cs).passed, m.closes = true) →
        (((xt id oid).exec e cs).passed.map fun m => taken m.msg).sum = (e.getRequestTrack id).vol ∧
          (((xt id oid).exec e cs).passed.map Passed.countedOut).sum = 1 := by
      intro hany
      have htraded := volTraded_of_timely he hcs ht (hended hany)
      have hlt := hremains (hended hany)
      have hpos := List.countP_pos_iff.mpr hany
      constructor
      · rw [sum_taken_run (dealt cs) he hcs honce hvol hany, htraded]
        omega
      · rw [sum_countedOut htr.types fun m hm => ?_]
        · omega
        · have h1 := (htr.tracks m hm).vol
          have h2 := htr.below m hm
          omega
    refine ⟨htr.written, honce, hvol, fun m hm hcl => hremains (hended ⟨m, hm, hcl⟩), hsettled, ?_⟩
    intro hany info a hv hl hknown
    obtain ⟨i, hf⟩ := Option.isSome_iff_exists.mp hknown
    obtain ⟨h1, h2⟩ := hsettled hany
    have hbook := fun l => pending_onRtns hv hf htr.tracks hl l
    refine ⟨fun l hleg => ?_, ?_⟩
    · rw [(hbook l).1, if_pos hleg, h1]
    · rw [(hbook .longOpn).2, h2]

end Right

/-- An order for two lots, sent as request 1. -/
def sentXt : XtEngine :=
  ({ accountUnits := [⟨1, 1⟩] } : XtEngine).reqOrderInsert .rb
    { from_ := 7, localId := 1, accIdx := 0, instrHash := 1, instr := "rb1810", price := 100, vol := 2
      dir := .buy, off := .opn, stgId := 1 } 0

theorem unanswered_sentXt : Unanswered 1 77 sentXt :=
  ⟨rfl, rfl, Status.fromTypes_ods .tdSend, fun _ h => by cases h⟩

/-- One lot of the front's order 77. -/
def xtLot : XtCallback := .rtnDealDetail ⟨77, "31", 100, 1⟩

def xtReported (orderStatus : EntrustStatus) : XtCallback :=
  .rtnOrderDetail ⟨77, orderStatus, 0, "", "rb1810", 100, 2, true, 0⟩

def oneLeft : List XtCallback := [.order 1 77 none, xtLot, xtReported .canceled]

/-- One lot dealt, the other cancelled. -/
theorem rightRun_oneLeft : RightRun 1 77 sentXt oneLeft := by
  have hcs : ∀ c ∈ oneLeft, c.About 1 77 := by
    simp [oneLeft, XtCallback.About, xtLot, xtReported]
  have hopen : ∀ pre, (∀ c ∈ pre, c.About 1 77) →
      (∀ m ∈ ((xt 1 77).exec sentXt pre).passed, m.closes ≠ true) → ¬Ended 1 77 sentXt pre :=
    fun pre hpre hno hend =>
      have ⟨m, hm, hcl⟩ := (traces_run unanswered_sentXt hpre).closes.mpr hend
      hno m hm hcl
  refine (closedRight_iff 1 77 sentXt unanswered_sentXt oneLeft hcs).mpr ?_
  have hsplit : oneLeft = [] ++ [.order 1 77 none] ++ [xtLot] ++ [xtReported .canceled] := rfl
  rw [hsplit, atEach_concat, atEach_concat, atEach_concat, ← hsplit]
  have hone : ¬Ended 1 77 sentXt [.order 1 77 none] :=
    hopen _ (by simp [XtCallback.About]) (by decide +kernel)
  have htwo : ¬Ended 1 77 sentXt [.order 1 77 none, xtLot] :=
    hopen _ (by simp [XtCallback.About, xtLot]) (by decide +kernel)
  refine ⟨⟨⟨atEach_nil _, ?_⟩, ?_⟩, ?_⟩
  · have hno : ∀ k, ¬(XtCallback.order 1 77 none).Ends 1 sentXt k := not_ends_of_none rfl
    exact ⟨fun _ h => absurd h (hno _), fun _ h => absurd h (hno _), fun _ h => absurd h (hno _),
      fun h => absurd h (hno _), fun _ => atSome_nil⟩
  · have hno : ∀ k, ¬xtLot.Ends 1 ((xt 1 77).exec sentXt [.order 1 77 none]) k :=
      not_ends_of_none rfl
    exact ⟨fun _ h => absurd h (hno _), fun _ h => absurd h (hno _), fun _ h => absurd h (hno _),
      fun h => absurd h (hno _), fun _ => hone⟩
  · have hleft : dealt oneLeft < (sentXt.getRequestTrack 1).vol := by decide +kernel
    have htraded : (((xt 1 77).exec sentXt [.order 1 77 none, xtLot]).getRequestTrack 1).volTraded =
        dealt oneLeft := by decide +kernel
    exact ⟨fun _ _ => htwo, fun _ _ => hleft, fun _ h => (by cases h.ending), fun _ => htraded,
      fun _ => htwo⟩

/-- A finished order keeps its dealt lot pending; the volume of a reject that
comes twice is taken twice; a lot dealt after the cancel is taken twice. -/
theorem not_rightRun_sentXt :
    Unanswered 1 77 sentXt ∧ xtLot.About 1 77 ∧ (xtReported .junk).About 1 77 ∧
      ¬RightRun 1 77 sentXt [.order 1 77 none, xtLot, .rtnOrder ⟨77, .finished, 0, ""⟩] ∧
      ¬RightRun 1 77 sentXt [.order 1 77 none, xtReported .junk, xtReported .junk] ∧
      ¬RightRun 1 77 sentXt [.order 1 77 none, xtReported .canceled, xtLot] := by
  refine ⟨unanswered_sentXt, ⟨rfl, le_rfl⟩, rfl, fun h => ?_, fun h => ?_, fun h => ?_⟩
  · exact absurd h.volume (by decide +kernel)
  · exact absurd h.once (by decide +kernel)
  · exact absurd h.volume (by decide +kernel)

end NatFramework.Td
