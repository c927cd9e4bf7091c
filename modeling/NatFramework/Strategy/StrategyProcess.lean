import NatFramework.Lib.Shares
import NatFramework.Risk.Requests
import NatFramework.Strategy.SwitchDay
import NatFramework.Td.CTDHelperFake
import NatFramework.Td.Routing

/-!
# Several strategies in one process

`CStrategyProcess` has a list of strategies, each with a risk account, and for all of
them one trader helper with its order tracks and one map of the subscribed instruments.
`sendOrder` notes in the track the index of the strategy, and a return goes to the
strategy that the track names. `CStrategy` is the runtime with one strategy.

* `Alone`: `CStrategy`, with an account, a map and tracks of its own.
* `Apart`: a strategy orders what it has subscribed itself, subscribes before the first
  quote, and cancels its own orders. The shared map and the shared tracks ask for that.
* `strategy_alone`: such a strategy sees, call by call, quote by quote and return by return,
  what it would see alone, and its account is the one it would have, also over days.
* `never_behindEnd`: `strategy_list_` is never read behind its end, whatever tracks the
  helper has fetched: `run` begins with a switch of the day, which drops them.
-/
namespace NatFramework.Strategy

open Lib Account Risk Td

/-! ## The helper -/

namespace ITDHelper

def newTrack (a : OrderArgs) (trackId : Nat) : OrderTrack where
  status := ods .send
  instrHash := a.instrHash
  instr := a.instr
  price := a.price
  vol := a.vol
  dir := a.dir
  off := a.off
  stgId := a.stgId
  accId := a.accId
  localId := trackId

/-- mirrors td/ITDHelper.cpp:22-42 -/
def sendOrder (a : OrderArgs) (ts : List OrderTrack) : List OrderTrack := ts ++ [newTrack a ts.length]

/-- The answer, and the tracks.
mirrors td/ITDHelper.cpp:44-58 -/
def deleteOrder (trackId : Int) (ts : List OrderTrack) : Int × List OrderTrack :=
  -- an id below 0 is large beside `size()`
  if trackId < 0 then (-1, ts)
  else match ts[trackId.toNat]? with
    | some t =>
      if deletable t then (0, ts.set trackId.toNat { t with status := t.status ||| ods .cxling }) else (-1, ts)
    | none => (-1, ts)

/-- The track, and all of them.
mirrors td/ITDHelper.cpp:60-82 -/
def getRtn (m : RtnMsg) (ts : List OrderTrack) : Option (OrderTrack × List OrderTrack) :=
  if m.localId < 0 then none
  else match ts[m.localId.toNat]? with
    | some t =>
      let t := CTDHelperFake.rtnTrack m t
      some (t, ts.set m.localId.toNat t)
    | none => none

end ITDHelper

/-! ## The two runtimes -/

structure StgOrder where
  instrHash : Hash
  dir : Dir
  off : Off
  px : ℚ
  vol : Int
  accIdx : Int := 0

/-- What `lst_tick` keeps of a quote, as far as the account reads it. -/
structure Quote where
  instrHash : Hash
  askPx : ℚ
  bidPx : ℚ
  exchTime : Int
  deriving DecidableEq

/-- mirrors strategy/CStrategyProcess.cpp:283-305, strategy/CStrategy.cpp:274-296 -/
def Quote.toLast (q : Quote) (s : SubsInstrInfo) : SubsInstrInfo :=
  { s with askPx := q.askPx, bidPx := q.bidPx, exchTime := q.exchTime }

/-- What a strategy is told: the results of its calls, its quotes and its returns. -/
inductive Told where
  | subscribed (ok : Bool)
  | refused (ret : Int)
  | sent (trackId : Nat)
  | cancelled (ret : Int)
  | tick (q : Quote)
  | rtn (m : RtnMsg)
  deriving DecidableEq

/-- `control`: `do_trade` in the shared area. `found`: the instruments of the base
information that the names of a subscription mean, none when the quote helper refuses
them. `switchDay`: `pre_on_switch_day`, also the one that `run` begins with. -/
inductive Event (ι : Type) where
  | control (doTrade : Bool)
  | subscribe (i : ι) (found : List InstrumentInfo)
  | send (i : ι) (o : StgOrder)
  | cancel (i : ι) (trackId : Int)
  | switchDay (day : String)
  | tick (q : Quote)
  | rtn (m : RtnMsg)

/-- Quotes and returns are read in the loop of `run` only. -/
def Event.inLoop {ι : Type} : Event ι → Bool
  | .tick _ | .rtn _ => true
  | _ => false

/-- How a process ends: by the assertion behind a missing setting, or by reading
`strategy_list_` behind its end. -/
inductive Fault where
  | assertion
  | behindEnd
  deriving DecidableEq

section Runtimes

variable (base : TradeBaseInfo) (tickPrice : Hash → ℚ) (stale : Option (Ptr Hash) → UnitVol)

/-- The account behind `sendOrder`, and what the helper is called with; `info` is what the
map of the subscribed instruments has.
mirrors strategy/CStrategyProcess.h:184-201, strategy/CStrategy.cpp:141-162 -/
def ask (doTrade : Bool) (info : Option SubsInstrInfo) (o : StgOrder) (r : RiskStg) :
    Except Fault (RiskStg × Except Int OrderArgs) :=
  match doTrade, info with
  | true, some subs =>
    match r.check base tickPrice o.dir o.off o.px o.vol subs with
    | (_, _, none) => .error .assertion
    | (r, off, some ret) =>
      if ret = 0 then
        .ok (r.onNew base o.dir off o.px o.vol o.instrHash subs.exchTime,
          .ok { instr := subs.baseInfo.instr, price := o.px, vol := o.vol, dir := o.dir, off := off
                accId := o.accIdx, instrHash := o.instrHash })
      else .ok (r, .error ret)
  | _, _ => .ok (r, .error (-1))

/-- The loop of `subscribe`. `enter` notes an instrument in the map and says whether it is
new to the strategy.
mirrors strategy/CStrategyProcess.cpp:223-243, strategy/CStrategy.cpp:95-107 -/
def regAll {σ : Type} (enter : InstrumentInfo → σ → σ × Bool) :
    List InstrumentInfo → σ → RiskStg → Except Fault (σ × RiskStg × Bool)
  | [], m, r => .ok (m, r, true)
  | x :: found, m, r =>
    let (m, isNew) := enter x m
    if isNew then
      match r.regInstr base tickPrice x.instr with
      | (_, none) => .error .assertion
      | (r, some false) => .ok (m, r, false)
      | (r, some true) => regAll enter found m r
    else regAll enter found m r

/-- What the roll of the day does to the account; `save` writes its file.
mirrors risk/RiskStg.cpp:183-186 -/
def roll (calls : List StgCall) (r : RiskStg) : RiskStg :=
  calls.foldl (fun r c => if c = .onSwitchDay then r.onSwitchDay stale else r) r

/-- `CStrategy`. `told` is since the last switch of the day. -/
structure Alone where
  doTrade : Bool := true
  days : DayVars := {}
  subs : UMap Hash SubsInstrInfo := ∅
  tracks : List OrderTrack
  risk : RiskStg
  told : List Told := []

namespace Alone

/-- With the tracks that the engine has of its orders.
mirrors strategy/CStrategy.cpp:241-243 -/
def start (loaded : RiskStg) (ts : List OrderTrack) : Alone where
  tracks := ts
  risk := ts.foldl (fun r t => r.onOrderTrack base t) loaded

/-- mirrors strategy/CStrategy.cpp:96-101 -/
def enter (x : InstrumentInfo) (m : UMap Hash SubsInstrInfo) : UMap Hash SubsInstrInfo × Bool :=
  let hash := base.nameHash x.instr
  match m.lookup hash with
  | none => (m.insert hash { baseInfo := x }, true)
  | some _ => (m, false)

/-- mirrors strategy/CStrategy.cpp:80-171,266-306,355-368,415-437 -/
def next (l : Alone) : Event Unit → Except Fault Alone
  | .control b => .ok { l with doTrade := b }
  | .subscribe _ found =>
    match regAll base tickPrice (enter base) found l.subs l.risk with
    | .error f => .error f
    | .ok (subs, r, ok) =>
      .ok { l with subs := subs, risk := r, told := l.told ++ [.subscribed (!found.isEmpty && ok)] }
  | .send _ o =>
    match ask base tickPrice l.doTrade (l.subs.lookup o.instrHash) o l.risk with
    | .error f => .error f
    | .ok (r, .ok a) =>
      .ok { l with
        tracks := ITDHelper.sendOrder a l.tracks
        risk := r
        told := l.told ++ [.sent l.tracks.length] }
    | .ok (r, .error ret) => .ok { l with risk := r, told := l.told ++ [.refused ret] }
  | .cancel _ id =>
    let d := ITDHelper.deleteOrder id l.tracks
    .ok { l with tracks := d.2, told := l.told ++ [.cancelled d.1] }
  | .switchDay day =>
    let d := CStrategy.preOnSwitchDay l.days day
    .ok { l with days := d.1, subs := ∅, tracks := [], risk := roll stale d.2 l.risk, told := [] }
  | .tick q =>
    let subs := match l.subs.lookup q.instrHash with
      | none => l.subs
      | some info => l.subs.insert q.instrHash (q.toLast info)
    .ok { l with subs := subs, told := l.told ++ [.tick q] }
  | .rtn m =>
    match ITDHelper.getRtn m l.tracks with
    | none => .ok l
    | some (t, ts) =>
      .ok { l with tracks := ts, risk := l.risk.onRtn base t m, told := l.told ++ [.rtn m] }

def run (l : Alone) (es : List (Event Unit)) : Except Fault Alone := es.foldlM (next base tickPrice stale) l

end Alone

/-- mirrors strategy/CStrategyProcess.h:73-76 -/
structure SubscribedInstrInfo (n : Nat) where
  instrInfo : SubsInstrInfo
  stgs : List (Fin n)

/-- `CStrategyProcess` with `n` strategies. `told` is since the last switch of the day. -/
structure StrategyProcess (n : Nat) where
  doTrade : Bool := true
  days : DayVars := {}
  subs : UMap Hash (SubscribedInstrInfo n) := ∅
  tracks : List OrderTrack
  risks : Fin n → RiskStg
  told : Fin n → List Told := fun _ => []

/-- The track is of strategy `i`. -/
def own {n : Nat} (i : Fin n) (t : OrderTrack) : Bool := t.stgId = (i.val : Int)

namespace StrategyProcess

variable {n : Nat}

/-- mirrors strategy/CStrategyProcess.cpp:179-185 -/
def start (loaded : Fin n → RiskStg) (ts : List OrderTrack) : StrategyProcess n where
  tracks := ts
  risks i := ts.foldl (fun r t => if own i t then r.onOrderTrack base t else r) (loaded i)

/-- mirrors strategy/CStrategyProcess.cpp:224-238 -/
def enter (i : Fin n) (x : InstrumentInfo) (m : UMap Hash (SubscribedInstrInfo n)) :
    UMap Hash (SubscribedInstrInfo n) × Bool :=
  let hash := base.nameHash x.instr
  match m.lookup hash with
  | none => (m.insert hash ⟨{ baseInfo := x }, [i]⟩, true)
  | some e =>
    if i ∈ e.stgs then (m, false)
    else (m.insert hash { e with stgs := e.stgs ++ [i] }, true)

/-- mirrors strategy/CStrategyProcess.cpp:208-246,275-310,331-335,386-407, strategy/CStrategyProcess.h:184-210 -/
def next (s : StrategyProcess n) : Event (Fin n) → Except Fault (StrategyProcess n)
  | .control b => .ok { s with doTrade := b }
  | .subscribe i found =>
    match regAll base tickPrice (enter base i) found s.subs (s.risks i) with
    | .error f => .error f
    | .ok (subs, r, ok) =>
      .ok { s with
        subs := subs
        risks := Function.update s.risks i r
        told := Function.update s.told i (s.told i ++ [.subscribed (!found.isEmpty && ok)]) }
  | .send i o =>
    match ask base tickPrice s.doTrade ((s.subs.lookup o.instrHash).map (·.instrInfo)) o (s.risks i) with
    | .error f => .error f
    | .ok (r, .ok a) =>
      .ok { s with
        tracks := ITDHelper.sendOrder { a with stgId := i.val } s.tracks
        risks := Function.update s.risks i r
        told := Function.update s.told i (s.told i ++ [.sent s.tracks.length]) }
    | .ok (r, .error ret) =>
      .ok { s with
        risks := Function.update s.risks i r
        told := Function.update s.told i (s.told i ++ [.refused ret]) }
  | .cancel i id =>
    let d := ITDHelper.deleteOrder id s.tracks
    .ok { s with tracks := d.2, told := Function.update s.told i (s.told i ++ [.cancelled d.1]) }
  | .switchDay day =>
    let d := CStrategyProcess.preOnSwitchDay n s.days day
    .ok { s with
      days := d.1
      subs := ∅
      tracks := []
      risks := fun i => roll stale (CStrategyProcess.callsOf i d.2) (s.risks i)
      told := fun _ => [] }
  | .tick q =>
    match s.subs.lookup q.instrHash with
    | none => .ok s
    | some e =>
      .ok { s with
        subs := s.subs.insert q.instrHash { e with instrInfo := q.toLast e.instrInfo }
        told := fun i => if i ∈ e.stgs then s.told i ++ [.tick q] else s.told i }
  | .rtn m =>
    match ITDHelper.getRtn m s.tracks with
    | none => .ok s
    | some (t, ts) =>
      if h : 0 ≤ t.stgId ∧ t.stgId.toNat < n then
        let i : Fin n := ⟨t.stgId.toNat, h.2⟩
        .ok { s with
          tracks := ts
          risks := Function.update s.risks i ((s.risks i).onRtn base t m)
          told := Function.update s.told i (s.told i ++ [.rtn m]) }
      else .error .behindEnd

def run (s : StrategyProcess n) (es : List (Event (Fin n))) : Except Fault (StrategyProcess n) :=
  es.foldlM (next base tickPrice stale) s

end StrategyProcess

end Runtimes

/-! ## The view of one strategy -/

/-- Where track `k` stands among the tracks of strategy `i`. -/
def ownId {n : Nat} (i : Fin n) (ts : List OrderTrack) (k : Nat) : Nat := rank (own i) ts k

def Told.renumber {n : Nat} (i : Fin n) (ts : List OrderTrack) : Told → Told
  | .sent k => .sent (ownId i ts k)
  | .rtn m => .rtn { m with localId := ownId i ts m.localId.toNat }
  | told => told

/-- Track `id` is there and of strategy `i`. -/
def Concerns {n : Nat} (i : Fin n) (ts : List OrderTrack) (id : Int) : Bool :=
  0 ≤ id && (ts[id.toNat]?).any (own i)

namespace StrategyProcess

variable {n : Nat}

/-- Strategy `i` has subscribed the instrument. -/
def Subscribes (s : StrategyProcess n) (i : Fin n) (instrHash : Hash) : Prop :=
  ∃ e, s.subs.lookup instrHash = some e ∧ i ∈ e.stgs

instance decSubscribes (s : StrategyProcess n) (i : Fin n) (instrHash : Hash) :
    Decidable (s.Subscribes i instrHash) :=
  decidable_of_iff ((s.subs.lookup instrHash).any (i ∈ ·.stgs)) (by simp [Subscribes, Option.any_eq_true])

/-- What of an event concerns strategy `i`, with the ids it would have alone. -/
def view (s : StrategyProcess n) (i : Fin n) : Event (Fin n) → Option (Event Unit)
  | .control b => some (.control b)
  | .subscribe j found => if j = i then some (.subscribe () found) else none
  | .send j o => if j = i then some (.send () o) else none
  | .cancel j id =>
    if j = i then some (.cancel () (if id < 0 then id else ownId i s.tracks id.toNat)) else none
  | .switchDay day => some (.switchDay day)
  | .tick q => if s.Subscribes i q.instrHash then some (.tick q) else none
  | .rtn m =>
    if Concerns i s.tracks m.localId then some (.rtn { m with localId := ownId i s.tracks m.localId.toNat })
    else none

/-- What strategy `i` does beside the others, and they beside it. -/
def ApartAt (base : TradeBaseInfo) (i : Fin n) (s : StrategyProcess n) : Event (Fin n) → Prop
  -- another may have subscribed it before, as long as no quote of it has come
  | .subscribe j found => j = i → ∀ x ∈ found, ∀ e ∈ s.subs.lookup (base.nameHash x.instr),
      i ∉ e.stgs → e.instrInfo = { baseInfo := x }
  -- an instrument that no strategy has subscribed is refused in both runtimes
  | .send j o => j = i → (s.subs.lookup o.instrHash).isSome → s.Subscribes i o.instrHash
  | .cancel j id => 0 ≤ id → ∀ t ∈ s.tracks[id.toNat]?, (j = i ↔ own i t)
  -- for a repeated day only `CStrategy` rolls its account
  | .switchDay day => s.days.tradingDay ≠ "" → s.days.accSaveDay ≠ "" ∧ s.days.accSaveDay < day
  | .control _ | .tick _ | .rtn _ => True

variable (base : TradeBaseInfo) (tickPrice : Hash → ℚ) (stale : Option (Ptr Hash) → UnitVol)

def views (i : Fin n) : StrategyProcess n → List (Event (Fin n)) → List (Event Unit)
  | _, [] => []
  | s, e :: es =>
    (s.view i e).toList ++ match s.next base tickPrice stale e with
      | .ok s' => views i s' es
      | .error _ => []

/-- Each event of a run. -/
def Apart (i : Fin n) : StrategyProcess n → List (Event (Fin n)) → Prop
  | _, [] => True
  | s, e :: es => s.ApartAt base i e ∧ match s.next base tickPrice stale e with
      | .ok s' => Apart i s' es
      | .error _ => True

instance decApartAt (i : Fin n) (s : StrategyProcess n) (e : Event (Fin n)) : Decidable (s.ApartAt base i e) := by
  cases e <;> unfold ApartAt <;> infer_instance

instance decApart (i : Fin n) (s : StrategyProcess n) (es : List (Event (Fin n))) :
    Decidable (s.Apart base tickPrice stale i es) :=
  match es with
  | [] => .isTrue trivial
  | e :: es =>
    have : Decidable (match s.next base tickPrice stale e with
        | .ok s' => s'.Apart base tickPrice stale i es
        | .error _ => True) :=
      match s.next base tickPrice stale e with
      | .ok s' => decApart i s' es
      | .error _ => .isTrue trivial
    inferInstanceAs (Decidable (_ ∧ _))

end StrategyProcess

/-! ## Tracks but for their numbers -/

def bare (t : OrderTrack) : OrderTrack := { t with localId := 0, stgId := 0 }

section Tracks

variable {n : Nat} {i : Fin n} {ts ts' : List OrderTrack} {t t' : OrderTrack} {m : RtnMsg} {id : Int} {k : Nat}

@[simp] theorem rtnTrack_stgId (m : RtnMsg) (t : OrderTrack) : (CTDHelperFake.rtnTrack m t).stgId = t.stgId := by
  unfold CTDHelperFake.rtnTrack
  dsimp only
  split_ifs <;> rfl

theorem bare_rtnTrack (m : RtnMsg) (k : Int) (t : OrderTrack) :
    bare (CTDHelperFake.rtnTrack { m with localId := k } t) = CTDHelperFake.rtnTrack m (bare t) := by
  unfold CTDHelperFake.rtnTrack bare
  dsimp only
  split_ifs <;> rfl

@[simp] theorem own_rtnTrack (m : RtnMsg) (t : OrderTrack) : own i (CTDHelperFake.rtnTrack m t) = own i t := by
  simp [own]

theorem getRtn_of (hid : 0 ≤ m.localId) (h : ts[m.localId.toNat]? = some t) :
    ITDHelper.getRtn m ts =
      some (CTDHelperFake.rtnTrack m t, ts.set m.localId.toNat (CTDHelperFake.rtnTrack m t)) := by
  rw [ITDHelper.getRtn, if_neg (Int.not_lt.mpr hid), h]

theorem getRtn_eq_some (h : ITDHelper.getRtn m ts = some (t', ts')) :
    ∃ t, 0 ≤ m.localId ∧ ts[m.localId.toNat]? = some t ∧ t' = CTDHelperFake.rtnTrack m t ∧
      ts' = ts.set m.localId.toNat t' := by
  rw [ITDHelper.getRtn] at h
  split_ifs at h with hid
  split at h
  · rename_i t ht
    obtain ⟨rfl, rfl⟩ := Prod.mk.inj (Option.some.inj h)
    exact ⟨t, Int.not_lt.mp hid, ht, rfl, rfl⟩
  · cases h

theorem deletable_bare (t : OrderTrack) : deletable (bare t) = deletable t := rfl

theorem deleteOrder_of (hid : 0 ≤ id) (ht : ts[id.toNat]? = some t) :
    ITDHelper.deleteOrder id ts =
      if deletable t then (0, ts.set id.toNat { t with status := t.status ||| ods .cxling }) else (-1, ts) := by
  rw [ITDHelper.deleteOrder, if_neg (Int.not_lt.mpr hid), ht]

theorem deleteOrder_none (h : id < 0 ∨ ts[id.toNat]? = none) : ITDHelper.deleteOrder id ts = (-1, ts) := by
  rw [ITDHelper.deleteOrder]
  rcases h with h | h
  · rw [if_pos h]
  · rw [h, ite_self]

theorem deleteOrder_cases (id : Int) (ts : List OrderTrack) :
    (ITDHelper.deleteOrder id ts).2 = ts ∨ ∃ t, 0 ≤ id ∧ ts[id.toNat]? = some t ∧
      (ITDHelper.deleteOrder id ts).2 = ts.set id.toNat { t with status := t.status ||| ods .cxling } := by
  by_cases hid : id < 0
  · exact .inl (by rw [deleteOrder_none (.inl hid)])
  · cases ht : ts[id.toNat]? with
    | none => exact .inl (by rw [deleteOrder_none (.inr ht)])
    | some t =>
      have hid := Int.not_lt.mp hid
      rw [deleteOrder_of hid ht]
      split
      · exact .inr ⟨t, hid, rfl, rfl⟩
      · exact .inl rfl

theorem onRtn_bare (base : TradeBaseInfo) (r : RiskStg) (m : RtnMsg) (k : Int) (t : OrderTrack) :
    r.onRtn base (bare t) m = r.onRtn base t { m with localId := k } := rfl

theorem concerns_iff : Concerns i ts id ↔ 0 ≤ id ∧ ∃ t, ts[id.toNat]? = some t ∧ own i t := by
  simp [Concerns, Option.any_eq_true]

/-- The tracks that a strategy would have alone, but for the numbers in them. -/
def SameTracks (i : Fin n) (ts ls : List OrderTrack) : Prop := ls.map bare = (ts.filter (own i)).map bare

theorem SameTracks.getElem? {ls : List OrderTrack} (h : SameTracks i ts ls) (ht : ts[k]? = some t) (hown : own i t) :
    ∃ t', ls[ownId i ts k]? = some t' ∧ bare t' = bare t := by
  have hmap : (ls.map bare)[ownId i ts k]? = some (bare t) := by
    rw [h, List.getElem?_map, ownId, getElem?_rank ht hown, Option.map_some]
  rw [List.getElem?_map] at hmap
  obtain ⟨t', ht', hbare⟩ := Option.map_eq_some_iff.mp hmap
  exact ⟨t', ht', hbare⟩

theorem SameTracks.set {ls : List OrderTrack} {x x' : OrderTrack} (h : SameTracks i ts ls) (ht : ts[k]? = some t)
    (hown : own i t) (hx : own i x) (hbare : bare x' = bare x) :
    SameTracks i (ts.set k x) (ls.set (ownId i ts k) x') := by
  rw [SameTracks, filter_set ht hown hx, List.map_set, List.map_set, h, hbare, ownId]

theorem SameTracks.set_of_not {ls : List OrderTrack} {x : OrderTrack} (h : SameTracks i ts ls)
    (ht : ts[k]? = some t) (hown : ¬own i t) (hx : ¬own i x) : SameTracks i (ts.set k x) ls := by
  rw [SameTracks, filter_set_of_not ht hown hx, h]

theorem SameTracks.append {ls : List OrderTrack} {x x' : OrderTrack} (h : SameTracks i ts ls) (hx : own i x)
    (hbare : bare x' = bare x) : SameTracks i (ts ++ [x]) (ls ++ [x']) := by
  simpa [SameTracks, List.filter_append, hx, hbare] using h

theorem SameTracks.append_of_not {ls : List OrderTrack} {x : OrderTrack} (h : SameTracks i ts ls) (hx : ¬own i x) :
    SameTracks i (ts ++ [x]) ls := by
  simpa [SameTracks, List.filter_append, hx] using h

theorem SameTracks.length {ls : List OrderTrack} (h : SameTracks i ts ls) : ls.length = ownId i ts ts.length := by
  rw [ownId, rank_length]
  simpa using congrArg List.length h

/-- An id behind all tracks. -/
theorem SameTracks.getElem?_none {ls : List OrderTrack} (h : SameTracks i ts ls) (hk : ts[k]? = none) :
    ls[ownId i ts k]? = none := by
  have hle := List.getElem?_eq_none_iff.mp hk
  refine List.getElem?_eq_none_iff.mpr (Nat.le_of_eq ?_)
  rw [h.length, ownId, ownId, rank, rank, List.take_length, List.take_of_length_le hle]

/-! ## What was told keeps its numbers -/

/-- The tracks of strategy `i` that were there keep their numbers. -/
structure Grown (i : Fin n) (ts ts' : List OrderTrack) : Prop where
  length_le : ts.length ≤ ts'.length
  ids : ∀ k < ts.length, ownId i ts' k = ownId i ts k

theorem Grown.refl (i : Fin n) (ts : List OrderTrack) : Grown i ts ts := ⟨Nat.le_refl _, fun _ _ => rfl⟩

theorem Grown.append (i : Fin n) (ts : List OrderTrack) (x : OrderTrack) : Grown i ts (ts ++ [x]) where
  length_le := by simp
  ids _ hk := rank_append (own i) _ (Nat.le_of_lt hk)

theorem Grown.set {x : OrderTrack} (ht : ts[k]? = some t) (hx : own i x = own i t) : Grown i ts (ts.set k x) where
  length_le := by simp
  ids m _ := rank_set ht hx.symm m

/-- The track that is meant is there. -/
def Told.Within (len : Nat) : Told → Prop
  | .sent k => k < len
  | .rtn m => m.localId.toNat < len
  | _ => True

theorem Told.Within.mono {len len' : Nat} {x : Told} (h : x.Within len) (hle : len ≤ len') : x.Within len' := by
  cases x with
  | sent k => exact Nat.lt_of_lt_of_le h hle
  | rtn m => exact Nat.lt_of_lt_of_le h hle
  | _ => trivial

theorem Told.renumber_grown {x : Told} (h : Grown i ts ts') (hx : x.Within ts.length) :
    x.renumber i ts' = x.renumber i ts := by
  cases x with
  | sent k => rw [Told.renumber, Told.renumber, h.ids k hx]
  | rtn m => rw [Told.renumber, Told.renumber, h.ids _ hx]
  | _ => rfl

/-- What strategy `i` was told, and what it would be told alone. -/
structure SameTold (i : Fin n) (ts : List OrderTrack) (told told' : List Told) : Prop where
  eq : told' = told.map (Told.renumber i ts)
  within : ∀ x ∈ told, x.Within ts.length

theorem SameTold.grow {told told' : List Told} (h : SameTold i ts told told') (hgrown : Grown i ts ts') :
    SameTold i ts' told told' where
  eq := h.eq.trans (List.map_congr_left fun _ hx => (Told.renumber_grown hgrown (h.within _ hx)).symm)
  within _ hx := (h.within _ hx).mono hgrown.length_le

theorem SameTold.tell {told told' : List Told} {x x' : Told} (h : SameTold i ts told told') (hx : x' = x.renumber i ts)
    (hin : x.Within ts.length) : SameTold i ts (told ++ [x]) (told' ++ [x']) where
  eq := by rw [List.map_append, ← h.eq, hx, List.map_singleton]
  within y hy := by
    rcases List.mem_append.mp hy with hy | hy
    · exact h.within y hy
    · exact List.mem_singleton.mp hy ▸ hin

end Tracks

/-! ## The shared map -/

section Subs

variable {n : Nat} {i j : Fin n} {base : TradeBaseInfo} {tickPrice : Hash → ℚ}
  {m m' : UMap Hash (SubscribedInstrInfo n)} {l : UMap Hash SubsInstrInfo} {x : InstrumentInfo} {h : Hash}

/-- The part of an entry that is strategy `i`'s. -/
def share (i : Fin n) (e : SubscribedInstrInfo n) : Option SubsInstrInfo :=
  if i ∈ e.stgs then some e.instrInfo else none

/-- The map that a strategy would have alone. -/
def SameSubs (i : Fin n) (m : UMap Hash (SubscribedInstrInfo n)) (l : UMap Hash SubsInstrInfo) : Prop :=
  ∀ h, l.lookup h = (m.lookup h).bind (share i)

theorem SameSubs.lookup {e : SubscribedInstrInfo n} (hs : SameSubs i m l) (hm : m.lookup h = some e)
    (hi : i ∈ e.stgs) : l.lookup h = some e.instrInfo := by
  rw [hs, hm, Option.bind_some, share, if_pos hi]

theorem SameSubs.lookup_none {e : SubscribedInstrInfo n} (hs : SameSubs i m l) (hm : m.lookup h = some e)
    (hi : i ∉ e.stgs) : l.lookup h = none := by
  rw [hs, hm, Option.bind_some, share, if_neg hi]

theorem SameSubs.insert {e : SubscribedInstrInfo n} {info : SubsInstrInfo} (hs : SameSubs i m l)
    (he : share i e = some info) : SameSubs i (m.insert h e) (l.insert h info) := by
  intro h'
  rw [UMap.lookup_insert_ite, UMap.lookup_insert_ite, hs]
  split
  · rw [Option.bind_some, he]
  · rfl

theorem SameSubs.insert_other {e : SubscribedInstrInfo n} (hs : SameSubs i m l)
    (he : share i e = (m.lookup h).bind (share i)) : SameSubs i (m.insert h e) l := by
  intro h'
  rw [UMap.lookup_insert_ite, hs]
  split
  · subst h'
    rw [Option.bind_some, he]
  · rfl

/-- No quote has come for those who subscribed before. -/
def Unticked (base : TradeBaseInfo) (i : Fin n) (m : UMap Hash (SubscribedInstrInfo n)) (x : InstrumentInfo) : Prop :=
  ∀ e ∈ m.lookup (base.nameHash x.instr), i ∉ e.stgs → e.instrInfo = { baseInfo := x }

theorem same_enter (hs : SameSubs i m l) (hx : Unticked base i m x) :
    SameSubs i (StrategyProcess.enter base i x m).1 (Alone.enter base x l).1 ∧
      (Alone.enter base x l).2 = (StrategyProcess.enter base i x m).2 := by
  rw [StrategyProcess.enter, Alone.enter]
  cases hm : m.lookup (base.nameHash x.instr) with
  | none =>
    have hl : l.lookup (base.nameHash x.instr) = none := by rw [hs, hm, Option.bind_none]
    rw [hl]
    exact ⟨hs.insert (by simp [share]), rfl⟩
  | some e =>
    by_cases hi : i ∈ e.stgs
    · rw [hs.lookup hm hi]
      simpa [hi] using hs
    · rw [hs.lookup_none hm hi]
      simp only [hi, if_false, and_true]
      exact hs.insert (by simp [share, hx e hm hi])

theorem same_enter_other (hne : j ≠ i) (hs : SameSubs i m l) : SameSubs i (StrategyProcess.enter base j x m).1 l := by
  rw [StrategyProcess.enter]
  cases hm : m.lookup (base.nameHash x.instr) with
  | none => exact hs.insert_other (by simp [share, hm, hne.symm])
  | some e =>
    dsimp only
    split
    · exact hs
    · exact hs.insert_other (by simp [share, hm, hne.symm])

/-- An entry that is not strategy `i`'s was there before it subscribed. -/
theorem lookup_enter {e : SubscribedInstrInfo n} (he : (StrategyProcess.enter base i x m).1.lookup h = some e)
    (hi : i ∉ e.stgs) : m.lookup h = some e := by
  rw [StrategyProcess.enter] at he
  split at he
  · rw [UMap.lookup_insert_ite] at he
    split at he
    · obtain rfl := Option.some.inj he
      simp at hi
    · exact he
  · split at he
    · exact he
    · rw [UMap.lookup_insert_ite] at he
      split at he
      · obtain rfl := Option.some.inj he
        simp at hi
      · exact he

theorem same_regAll {found : List InstrumentInfo} {r r' : RiskStg} {ok : Bool} (hs : SameSubs i m l)
    (hx : ∀ x ∈ found, Unticked base i m x)
    (hreg : regAll base tickPrice (StrategyProcess.enter base i) found m r = .ok (m', r', ok)) :
    ∃ l', regAll base tickPrice (Alone.enter base) found l r = .ok (l', r', ok) ∧ SameSubs i m' l' := by
  induction found generalizing m l r with
  | nil =>
    cases hreg
    exact ⟨l, rfl, hs⟩
  | cons x found ih =>
    obtain ⟨hsub, hnew⟩ := same_enter hs (hx x List.mem_cons_self)
    have hrest : ∀ y ∈ found, Unticked base i (StrategyProcess.enter base i x m).1 y := fun y hy e he hi =>
      hx y (List.mem_cons_of_mem _ hy) e (lookup_enter he hi) hi
    rw [regAll] at hreg ⊢
    dsimp only at hreg ⊢
    rw [hnew]
    split at hreg
    · rename_i hpos
      rw [if_pos hpos]
      split at hreg
      · cases hreg
      · cases hreg
        exact ⟨_, rfl, hsub⟩
      · exact ih hsub hrest hreg
    · rename_i hneg
      rw [if_neg hneg]
      exact ih hsub hrest hreg

theorem same_regAll_other {found : List InstrumentInfo} {r r' : RiskStg} {ok : Bool} (hne : j ≠ i)
    (hs : SameSubs i m l) (hreg : regAll base tickPrice (StrategyProcess.enter base j) found m r = .ok (m', r', ok)) :
    SameSubs i m' l := by
  induction found generalizing m r with
  | nil =>
    cases hreg
    exact hs
  | cons x found ih =>
    have hsub : SameSubs i (StrategyProcess.enter base j x m).1 l := same_enter_other hne hs
    rw [regAll] at hreg
    dsimp only at hreg
    split at hreg
    · split at hreg
      · cases hreg
      · cases hreg
        exact hsub
      · exact ih hsub hreg
    · exact ih hsub hreg

end Subs

/-! ## One step -/

/-- Strategy `i` of the process, and the same strategy alone. -/
structure Same {n : Nat} (i : Fin n) (s : StrategyProcess n) (l : Alone) : Prop where
  doTrade : l.doTrade = s.doTrade
  days : l.days = s.days
  subs : SameSubs i s.subs l.subs
  tracks : SameTracks i s.tracks l.tracks
  risk : l.risk = s.risks i
  told : SameTold i s.tracks (s.told i) l.told

section Step

variable {n : Nat} {i j : Fin n} {s s' : StrategyProcess n} {l : Alone} {base : TradeBaseInfo}
  {tickPrice : Hash → ℚ} {stale : Option (Ptr Hash) → UnitVol}

/-- `CStrategy` rolls its account on every switch of the day but the first, the process
when the day is new. -/
theorem roll_calls {d : DayVars} {day : String}
    (hday : d.tradingDay ≠ "" → d.accSaveDay ≠ "" ∧ d.accSaveDay < day) (i : Fin n) (r : RiskStg) :
    roll stale (CStrategyProcess.callsOf i (CStrategyProcess.preOnSwitchDay n d day).2) r =
      roll stale (CStrategy.preOnSwitchDay d day).2 r := by
  simp only [CStrategyProcess.preOnSwitchDay, CStrategy.preOnSwitchDay]
  by_cases hfirst : d.tradingDay = ""
  · simp only [hfirst, ne_eq, not_true_eq_false, if_false]
    generalize (if d.accSaveDay = "" then day else d.accSaveDay) = save
    split_ifs
    · rw [CStrategyProcess.callsOf_forEach, if_pos i.isLt]
      simp [roll]
    · simp [CStrategyProcess.callsOf, roll]
  · obtain ⟨hsave, hlt⟩ := hday hfirst
    simp [hfirst, hsave, hlt, CStrategyProcess.callsOf_forEach, i.isLt]

theorem same_switchDay {day : String} (h : Same i s l) (hapart : s.ApartAt base i (.switchDay day))
    (hs : s.next base tickPrice stale (.switchDay day) = .ok s') :
    ∃ l', l.next base tickPrice stale (.switchDay day) = .ok l' ∧ Same i s' l' := by
  obtain rfl := Except.ok.inj hs
  refine ⟨_, rfl, h.doTrade, ?_, fun h => by simp, rfl, ?_, ⟨rfl, by simp⟩⟩
  · dsimp only
    rw [h.days]
    rfl
  · dsimp only
    rw [h.days, h.risk, roll_calls hapart]

theorem same_subscribe {found : List InstrumentInfo} (h : Same i s l)
    (hapart : s.ApartAt base i (.subscribe i found)) (hs : s.next base tickPrice stale (.subscribe i found) = .ok s') :
    ∃ l', l.next base tickPrice stale (.subscribe () found) = .ok l' ∧ Same i s' l' := by
  rw [StrategyProcess.next] at hs
  rw [Alone.next]
  split at hs
  · cases hs
  · rename_i hreg
    obtain ⟨subs, hlone, hsubs⟩ := same_regAll h.subs (hapart rfl) hreg
    cases hs
    rw [h.risk, hlone]
    refine ⟨_, rfl, h.doTrade, h.days, hsubs, h.tracks, by simp, ?_⟩
    dsimp only
    rw [Function.update_self]
    exact h.told.tell rfl trivial

theorem same_subscribe_other {found : List InstrumentInfo} (hne : j ≠ i) (h : Same i s l)
    (hs : s.next base tickPrice stale (.subscribe j found) = .ok s') : Same i s' l := by
  rw [StrategyProcess.next] at hs
  split at hs
  · cases hs
  · rename_i hreg
    cases hs
    refine ⟨h.doTrade, h.days, same_regAll_other hne h.subs hreg, h.tracks, ?_, ?_⟩
    · dsimp only
      rw [Function.update_of_ne hne.symm, h.risk]
    · dsimp only
      rw [Function.update_of_ne hne.symm]
      exact h.told

/-- An order finds in both maps the same, unless it goes by another's subscription. -/
theorem Same.lookup {o : StgOrder} (h : Same i s l) (hapart : s.ApartAt base i (.send i o)) :
    l.subs.lookup o.instrHash = (s.subs.lookup o.instrHash).map (·.instrInfo) := by
  cases hm : s.subs.lookup o.instrHash with
  | none => rw [h.subs, hm, Option.bind_none, Option.map_none]
  | some e =>
    obtain ⟨e', he', hi⟩ := hapart rfl (by rw [hm, Option.isSome_some])
    rw [hm] at he'
    obtain rfl := Option.some.inj he'
    rw [h.subs.lookup hm hi, Option.map_some]

theorem same_send {o : StgOrder} (h : Same i s l) (hapart : s.ApartAt base i (.send i o))
    (hs : s.next base tickPrice stale (.send i o) = .ok s') :
    ∃ l', l.next base tickPrice stale (.send () o) = .ok l' ∧ Same i s' l' := by
  rw [StrategyProcess.next] at hs
  rw [Alone.next, h.doTrade, h.lookup hapart, h.risk]
  split at hs
  · cases hs
  · rename_i r a hask
    cases hs
    have htracks : SameTracks i (ITDHelper.sendOrder { a with stgId := i.val } s.tracks)
        (ITDHelper.sendOrder a l.tracks) := h.tracks.append (by simp [own, ITDHelper.newTrack]) rfl
    refine ⟨_, rfl, rfl, h.days, h.subs, htracks, by simp, ?_⟩
    dsimp only
    rw [Function.update_self]
    refine (h.told.grow (Grown.append i _ _)).tell ?_ (by simp [Told.Within])
    rw [Told.renumber, ownId, rank_append (own i) _ (Nat.le_refl _), h.tracks.length, ownId]
  · cases hs
    refine ⟨_, rfl, rfl, h.days, h.subs, h.tracks, by simp, ?_⟩
    dsimp only
    rw [Function.update_self]
    exact h.told.tell rfl trivial

theorem same_send_other {o : StgOrder} (hne : j ≠ i) (h : Same i s l)
    (hs : s.next base tickPrice stale (.send j o) = .ok s') : Same i s' l := by
  rw [StrategyProcess.next] at hs
  have hnot : ∀ a : OrderArgs, ¬own i (ITDHelper.newTrack { a with stgId := j.val } s.tracks.length) := fun a hown =>
    hne (Fin.ext (by simpa [own, ITDHelper.newTrack] using hown))
  split at hs
  · cases hs
  · rename_i r a hask
    cases hs
    refine ⟨h.doTrade, h.days, h.subs, h.tracks.append_of_not (hnot a), ?_, ?_⟩
    · dsimp only
      rw [Function.update_of_ne hne.symm, h.risk]
    · dsimp only
      rw [Function.update_of_ne hne.symm]
      exact h.told.grow (Grown.append i _ _)
  · cases hs
    refine ⟨h.doTrade, h.days, h.subs, h.tracks, ?_, ?_⟩
    · dsimp only
      rw [Function.update_of_ne hne.symm, h.risk]
    · dsimp only
      rw [Function.update_of_ne hne.symm]
      exact h.told

/-- The answer to `deleteOrder` for an own track, and what it leaves of the tracks. -/
theorem SameTracks.deleteOrder {ts ls : List OrderTrack} {id : Int} (h : SameTracks i ts ls)
    (hown : ∀ t, 0 ≤ id → ts[id.toNat]? = some t → own i t) :
    let d := ITDHelper.deleteOrder id ts
    let d' := ITDHelper.deleteOrder (if id < 0 then id else ownId i ts id.toNat) ls
    d'.1 = d.1 ∧ SameTracks i d.2 d'.2 ∧ Grown i ts d.2 := by
  intro d d'
  simp only [d, d']
  by_cases hid : id < 0
  · rw [if_pos hid, deleteOrder_none (.inl hid), deleteOrder_none (.inl hid)]
    exact ⟨rfl, h, Grown.refl i ts⟩
  · rw [if_neg hid]
    have hnn := Int.not_lt.mp hid
    cases ht : ts[id.toNat]? with
    | none =>
      rw [deleteOrder_none (.inr ht), deleteOrder_none (.inr (by rw [Int.toNat_natCast, h.getElem?_none ht]))]
      exact ⟨rfl, h, Grown.refl i ts⟩
    | some t =>
      have hown := hown t hnn ht
      obtain ⟨t', ht', hbare⟩ := h.getElem? ht hown
      have hsame : deletable t' = deletable t := by rw [← deletable_bare t', hbare, deletable_bare]
      have hcxl : bare { t' with status := t'.status ||| ods .cxling } =
          bare { t with status := t.status ||| ods .cxling } :=
        congrArg (fun t => { t with status := t.status ||| ods .cxling }) hbare
      rw [deleteOrder_of hnn ht, deleteOrder_of (Int.natCast_nonneg _) (by rwa [Int.toNat_natCast]),
        Int.toNat_natCast, hsame]
      split
      · exact ⟨rfl, h.set ht hown hown hcxl, Grown.set ht rfl⟩
      · exact ⟨rfl, h, Grown.refl i ts⟩

theorem same_cancel {id : Int} (h : Same i s l) (hapart : s.ApartAt base i (.cancel i id))
    (hs : s.next base tickPrice stale (.cancel i id) = .ok s') :
    ∃ l', l.next base tickPrice stale (.cancel () (if id < 0 then id else ownId i s.tracks id.toNat)) = .ok l' ∧
      Same i s' l' := by
  obtain ⟨hret, htracks, hgrown⟩ := h.tracks.deleteOrder fun t hid ht => (hapart hid t ht).mp rfl
  obtain rfl := Except.ok.inj hs
  refine ⟨_, rfl, h.doTrade, h.days, h.subs, htracks, h.risk, ?_⟩
  dsimp only
  rw [Function.update_self, hret]
  exact (h.told.grow hgrown).tell rfl trivial

theorem same_cancel_other {id : Int} (hne : j ≠ i) (h : Same i s l) (hapart : s.ApartAt base i (.cancel j id))
    (hs : s.next base tickPrice stale (.cancel j id) = .ok s') : Same i s' l := by
  obtain rfl := Except.ok.inj hs
  have hrisk : l.risk = s.risks i := h.risk
  rcases deleteOrder_cases id s.tracks with heq | ⟨t, hnn, ht, heq⟩
  · refine ⟨h.doTrade, h.days, h.subs, ?_, hrisk, ?_⟩
    · dsimp only
      rw [heq]
      exact h.tracks
    · dsimp only
      rw [heq, Function.update_of_ne hne.symm]
      exact h.told
  · have hnot : ¬own i t := fun hown => hne ((hapart hnn t ht).mpr hown)
    refine ⟨h.doTrade, h.days, h.subs, ?_, hrisk, ?_⟩
    · dsimp only
      rw [heq]
      exact h.tracks.set_of_not ht hnot hnot
    · dsimp only
      rw [heq, Function.update_of_ne hne.symm]
      exact h.told.grow (Grown.set ht rfl)

theorem same_tick {q : Quote} (h : Same i s l) (hq : s.Subscribes i q.instrHash)
    (hs : s.next base tickPrice stale (.tick q) = .ok s') :
    ∃ l', l.next base tickPrice stale (.tick q) = .ok l' ∧ Same i s' l' := by
  obtain ⟨e, hm, hi⟩ := hq
  rw [StrategyProcess.next, hm] at hs
  rw [Alone.next, h.subs.lookup hm hi]
  cases hs
  refine ⟨_, rfl, h.doTrade, h.days, h.subs.insert (by simp [share, hi]), h.tracks, h.risk, ?_⟩
  dsimp only
  rw [if_pos hi]
  exact h.told.tell rfl trivial

theorem same_tick_other {q : Quote} (h : Same i s l) (hq : ¬s.Subscribes i q.instrHash)
    (hs : s.next base tickPrice stale (.tick q) = .ok s') : Same i s' l := by
  rw [StrategyProcess.next] at hs
  split at hs
  · cases hs
    exact h
  · rename_i e hm
    have hi : i ∉ e.stgs := fun hi => hq ⟨e, hm, hi⟩
    cases hs
    refine ⟨h.doTrade, h.days, h.subs.insert_other (by simp [share, hm, hi]), h.tracks, h.risk, ?_⟩
    dsimp only
    rw [if_neg hi]
    exact h.told

theorem same_rtn {m : RtnMsg} (h : Same i s l) (hm : Concerns i s.tracks m.localId)
    (hs : s.next base tickPrice stale (.rtn m) = .ok s') :
    ∃ l', l.next base tickPrice stale (.rtn { m with localId := ownId i s.tracks m.localId.toNat }) = .ok l' ∧
      Same i s' l' := by
  obtain ⟨hnn, t, ht, hown⟩ := concerns_iff.mp hm
  obtain ⟨t', ht', hbare⟩ := h.tracks.getElem? ht hown
  have hstg : t.stgId = (i.val : Int) := by simpa [own] using hown
  have hidx : l.tracks[(ownId i s.tracks m.localId.toNat : Int).toNat]? = some t' := by
    rwa [Int.toNat_natCast]
  have hlone : ITDHelper.getRtn { m with localId := ownId i s.tracks m.localId.toNat } l.tracks = _ :=
    getRtn_of (Int.natCast_nonneg _) hidx
  rw [StrategyProcess.next, getRtn_of hnn ht] at hs
  rw [Alone.next, hlone]
  have hi : 0 ≤ (CTDHelperFake.rtnTrack m t).stgId ∧ (CTDHelperFake.rtnTrack m t).stgId.toNat < n := by
    rw [rtnTrack_stgId, hstg]
    exact ⟨Int.natCast_nonneg _, by simp⟩
  have hfin : (⟨(CTDHelperFake.rtnTrack m t).stgId.toNat, hi.2⟩ : Fin n) = i :=
    Fin.ext (by simp [hstg])
  dsimp only at hs ⊢
  rw [dif_pos hi, hfin] at hs
  cases hs
  have hrtn : bare (CTDHelperFake.rtnTrack { m with localId := ownId i s.tracks m.localId.toNat } t') =
      bare (CTDHelperFake.rtnTrack m t) := by
    rw [bare_rtnTrack, hbare, ← bare_rtnTrack m m.localId]
  have hrisk : l.risk.onRtn base (CTDHelperFake.rtnTrack { m with localId := ownId i s.tracks m.localId.toNat } t')
      { m with localId := ownId i s.tracks m.localId.toNat } =
        (s.risks i).onRtn base (CTDHelperFake.rtnTrack m t) m := by
    rw [h.risk, ← onRtn_bare, hrtn, onRtn_bare base _ m m.localId]
  have hown' : own i (CTDHelperFake.rtnTrack m t) = own i t := own_rtnTrack m t
  have hgrown := Grown.set ht hown'
  rw [hrisk, Int.toNat_natCast]
  refine ⟨_, rfl, h.doTrade, h.days, h.subs, h.tracks.set ht hown (hown'.trans hown) hrtn, by simp, ?_⟩
  dsimp only
  rw [Function.update_self]
  have hlt : m.localId.toNat < s.tracks.length := (List.getElem?_eq_some_iff.mp ht).1
  refine (h.told.grow hgrown).tell ?_ (by simpa [Told.Within] using hlt)
  rw [Told.renumber, hgrown.ids _ hlt]

theorem same_rtn_other {m : RtnMsg} (h : Same i s l) (hm : ¬Concerns i s.tracks m.localId)
    (hs : s.next base tickPrice stale (.rtn m) = .ok s') : Same i s' l := by
  rw [StrategyProcess.next] at hs
  cases hget : ITDHelper.getRtn m s.tracks with
  | none =>
    rw [hget] at hs
    cases hs
    exact h
  | some r =>
    obtain ⟨t', ts'⟩ := r
    obtain ⟨t, hnn, ht, rfl, rfl⟩ := getRtn_eq_some hget
    have hown : ¬own i t := fun hown => hm (concerns_iff.mpr ⟨hnn, t, ht, hown⟩)
    have hown' : own i (CTDHelperFake.rtnTrack m t) = own i t := own_rtnTrack m t
    rw [hget] at hs
    dsimp only at hs
    split_ifs at hs with hj
    cases hs
    have hne : i ≠ ⟨(CTDHelperFake.rtnTrack m t).stgId.toNat, hj.2⟩ := by
      rintro rfl
      have hstg := hj.1
      rw [rtnTrack_stgId] at hstg
      exact hown (by simpa [own] using hstg)
    refine ⟨h.doTrade, h.days, h.subs, h.tracks.set_of_not ht hown (hown' ▸ hown), ?_, ?_⟩
    · dsimp only
      rw [Function.update_of_ne hne, h.risk]
    · dsimp only
      rw [Function.update_of_ne hne]
      exact h.told.grow (Grown.set ht hown')

/-- **A step of the process is at most a step of each strategy.** -/
theorem same_next {e : Event (Fin n)} (h : Same i s l) (hapart : s.ApartAt base i e)
    (hs : s.next base tickPrice stale e = .ok s') :
    ∃ l', l.run base tickPrice stale (s.view i e).toList = .ok l' ∧ Same i s' l' := by
  -- no step of the strategy, or one
  have hnone : Same i s' l →
      ∃ l', l.run base tickPrice stale (none : Option (Event Unit)).toList = .ok l' ∧ Same i s' l' :=
    fun h => ⟨l, rfl, h⟩
  have hone : ∀ e' : Event Unit, (∃ l', l.next base tickPrice stale e' = .ok l' ∧ Same i s' l') →
      ∃ l', l.run base tickPrice stale (some e').toList = .ok l' ∧ Same i s' l' := by
    rintro e' ⟨l', hl', h'⟩
    refine ⟨l', ?_, h'⟩
    rw [Alone.run, Option.toList_some, List.foldlM_cons, hl']
    rfl
  cases e with
  | control b =>
    cases hs
    exact hone _ ⟨_, rfl, rfl, h.days, h.subs, h.tracks, h.risk, h.told⟩
  | subscribe j found =>
    rw [StrategyProcess.view]
    split
    · subst j
      exact hone _ (same_subscribe h hapart hs)
    · exact hnone (same_subscribe_other ‹_› h hs)
  | send j o =>
    rw [StrategyProcess.view]
    split
    · subst j
      exact hone _ (same_send h hapart hs)
    · exact hnone (same_send_other ‹_› h hs)
  | cancel j id =>
    rw [StrategyProcess.view]
    split
    · subst j
      exact hone _ (same_cancel h hapart hs)
    · exact hnone (same_cancel_other ‹_› h hapart hs)
  | switchDay day => exact hone _ (same_switchDay h hapart hs)
  | tick q =>
    rw [StrategyProcess.view]
    split
    · exact hone _ (same_tick h ‹_› hs)
    · exact hnone (same_tick_other h ‹_› hs)
  | rtn m =>
    rw [StrategyProcess.view]
    split
    · exact hone _ (same_rtn h ‹_› hs)
    · exact hnone (same_rtn_other h ‹_› hs)

/-! ## Whole runs -/

theorem same_start (loaded : Fin n → RiskStg) (ts : List OrderTrack) (i : Fin n) :
    Same i (StrategyProcess.start base loaded ts) (Alone.start base (loaded i) (ts.filter (own i))) where
  doTrade := rfl
  days := rfl
  subs _ := by simp [StrategyProcess.start, Alone.start]
  tracks := rfl
  risk := by rw [Alone.start, StrategyProcess.start, List.foldl_filter]
  told := ⟨rfl, by simp [StrategyProcess.start]⟩

theorem same_run {es : List (Event (Fin n))} (h : Same i s l) (hapart : s.Apart base tickPrice stale i es)
    (hs : s.run base tickPrice stale es = .ok s') :
    ∃ l', l.run base tickPrice stale (s.views base tickPrice stale i es) = .ok l' ∧ Same i s' l' := by
  induction es generalizing s l with
  | nil =>
    cases hs
    exact ⟨l, rfl, h⟩
  | cons e es ih =>
    rw [StrategyProcess.run, List.foldlM_cons] at hs
    cases hnext : s.next base tickPrice stale e with
    | error f =>
      rw [hnext] at hs
      cases hs
    | ok s₁ =>
      rw [hnext] at hs
      obtain ⟨l₁, hl₁, hsame⟩ := same_next h hapart.1 hnext
      have hrest := hapart.2
      rw [hnext] at hrest
      obtain ⟨l', hl', hsame'⟩ := ih hsame hrest hs
      refine ⟨l', ?_, hsame'⟩
      rw [StrategyProcess.views, hnext, Alone.run, List.foldlM_append]
      rw [Alone.run] at hl₁ hl'
      rw [hl₁]
      exact hl'

theorem ask_error {doTrade : Bool} {info : Option SubsInstrInfo} {o : StgOrder} {r : RiskStg} {f : Fault}
    (h : ask base tickPrice doTrade info o r = .error f) : f = .assertion := by
  unfold ask at h
  split at h
  · split at h
    · exact (Except.error.inj h).symm
    · split at h <;> cases h
  · cases h

theorem regAll_error {σ : Type} {enter : InstrumentInfo → σ → σ × Bool} {found : List InstrumentInfo} {m : σ}
    {r : RiskStg} {f : Fault} (h : regAll base tickPrice enter found m r = .error f) : f = .assertion := by
  induction found generalizing m r with
  | nil => cases h
  | cons x found ih =>
    rw [regAll] at h
    dsimp only at h
    split at h
    · split at h
      · exact (Except.error.inj h).symm
      · cases h
      · exact ih h
    · exact ih h

/-- Only a return looks into `strategy_list_`. -/
theorem next_main {e : Event (Fin n)} (he : !e.inLoop) : s.next base tickPrice stale e ≠ .error .behindEnd := by
  cases e with
  | tick q => cases he
  | rtn m => cases he
  | subscribe j found =>
    rw [StrategyProcess.next]
    split
    · rename_i hreg
      rw [regAll_error hreg]
      nofun
    · nofun
  | send j o =>
    rw [StrategyProcess.next]
    split
    · rename_i hask
      rw [ask_error hask]
      nofun
    · nofun
    · nofun
  | _ => nofun

/-- Every track names a strategy of the list. -/
def Listed (n : Nat) (ts : List OrderTrack) : Prop := ∀ t ∈ ts, 0 ≤ t.stgId ∧ t.stgId.toNat < n

theorem Listed.set {ts : List OrderTrack} {k : Nat} {t x : OrderTrack} (h : Listed n ts) (ht : ts[k]? = some t)
    (hx : x.stgId = t.stgId) : Listed n (ts.set k x) := by
  intro y hy
  rcases List.mem_or_eq_of_mem_set hy with hy | rfl
  · exact h y hy
  · rw [hx]
    exact h t (List.mem_of_getElem? ht)

theorem Listed.deleteOrder {ts : List OrderTrack} (h : Listed n ts) (id : Int) :
    Listed n (ITDHelper.deleteOrder id ts).2 := by
  rcases deleteOrder_cases id ts with heq | ⟨t, -, ht, heq⟩
  · rwa [heq]
  · rw [heq]
    exact h.set ht rfl

theorem Listed.sendOrder {ts : List OrderTrack} (h : Listed n ts) (a : OrderArgs) (i : Fin n) :
    Listed n (ITDHelper.sendOrder { a with stgId := i.val } ts) := by
  intro t ht
  rcases List.mem_append.mp ht with ht | ht
  · exact h t ht
  · obtain rfl := List.mem_singleton.mp ht
    simp [ITDHelper.newTrack]

/-- A step stays inside the list, and keeps the tracks so. -/
theorem Listed.next (h : Listed n s.tracks) (e : Event (Fin n)) :
    s.next base tickPrice stale e ≠ .error .behindEnd ∧
      ∀ s', s.next base tickPrice stale e = .ok s' → Listed n s'.tracks := by
  cases e with
  | control b => exact ⟨nofun, fun _ hs => by cases hs; exact h⟩
  | cancel j id => exact ⟨nofun, fun _ hs => by cases hs; exact h.deleteOrder id⟩
  | switchDay day => exact ⟨nofun, fun _ hs => by cases hs; simp [Listed]⟩
  | subscribe j found =>
    refine ⟨next_main rfl, fun s' hs => ?_⟩
    rw [StrategyProcess.next] at hs
    split at hs <;> cases hs
    exact h
  | send j o =>
    refine ⟨next_main rfl, fun s' hs => ?_⟩
    rw [StrategyProcess.next] at hs
    split at hs <;> cases hs
    · exact h.sendOrder _ j
    · exact h
  | tick q =>
    rw [StrategyProcess.next]
    split <;> exact ⟨nofun, fun _ hs => by cases hs; exact h⟩
  | rtn m =>
    rw [StrategyProcess.next]
    cases hget : ITDHelper.getRtn m s.tracks with
    | none => exact ⟨nofun, fun _ hs => by cases hs; exact h⟩
    | some r =>
      obtain ⟨t', ts'⟩ := r
      obtain ⟨t, -, ht, rfl, rfl⟩ := getRtn_eq_some hget
      have hlisted := h t (List.mem_of_getElem? ht)
      rw [← rtnTrack_stgId m] at hlisted
      dsimp only
      rw [dif_pos hlisted]
      exact ⟨nofun, fun _ hs => by cases hs; exact h.set ht (rtnTrack_stgId m t)⟩

theorem Listed.run (h : Listed n s.tracks) (es : List (Event (Fin n))) :
    s.run base tickPrice stale es ≠ .error .behindEnd ∧
      ∀ s', s.run base tickPrice stale es = .ok s' → Listed n s'.tracks := by
  induction es generalizing s with
  | nil => exact ⟨nofun, fun _ hs => by cases hs; exact h⟩
  | cons e es ih =>
    obtain ⟨hin, hlisted⟩ : s.next base tickPrice stale e ≠ .error .behindEnd ∧ _ := h.next e
    rw [StrategyProcess.run, List.foldlM_cons]
    cases hnext : s.next base tickPrice stale e with
    | error f => exact ⟨fun hf => hin (hnext.trans hf), nofun⟩
    | ok s₁ => exact ih (hlisted s₁ hnext)

/-- What `main` does before `run`. -/
theorem run_main {es : List (Event (Fin n))} (hes : ∀ e ∈ es, !e.inLoop) :
    s.run base tickPrice stale es ≠ .error .behindEnd := by
  induction es generalizing s with
  | nil => nofun
  | cons e es ih =>
    rw [StrategyProcess.run, List.foldlM_cons]
    cases hnext : s.next base tickPrice stale e with
    | error f => exact fun hf => next_main (hes e List.mem_cons_self) (hnext.trans hf)
    | ok s₁ => exact ih fun e' he' => hes e' (List.mem_cons_of_mem _ he')

end Step

/-- **Each strategy is as if alone.** Over every run of a process in which strategy `i`
keeps apart, also one that finds tracks of an earlier run: its account, what it is told, its
subscriptions and its tracks are those of a `CStrategy` with its calls, its quotes and the
returns of its orders, but for the numbers that the orders have. -/
theorem strategy_alone (base : TradeBaseInfo) (tickPrice : Hash → ℚ) (stale : Option (Ptr Hash) → UnitVol)
    {n : Nat} (loaded : Fin n → RiskStg) (ts : List OrderTrack) (es : List (Event (Fin n))) (s : StrategyProcess n)
    (i : Fin n) (hapart : (StrategyProcess.start base loaded ts).Apart base tickPrice stale i es)
    (h : (StrategyProcess.start base loaded ts).run base tickPrice stale es = .ok s) :
    ∃ l, (Alone.start base (loaded i) (ts.filter (own i))).run base tickPrice stale
        ((StrategyProcess.start base loaded ts).views base tickPrice stale i es) = .ok l ∧
      l.risk = s.risks i ∧ l.told = (s.told i).map (Told.renumber i s.tracks) ∧
      (∀ h, l.subs.lookup h = (s.subs.lookup h).bind (share i)) ∧
      l.tracks.map bare = (s.tracks.filter (own i)).map bare := by
  obtain ⟨l, hl, hsame⟩ := same_run (same_start loaded ts i) hapart h
  exact ⟨l, hl, hsame.risk, hsame.told.eq, hsame.subs, hsame.tracks⟩

/-- Both strategies subscribe, the day begins and they do so again; strategy 0 buys, then
strategy 1, which is answered. -/
def between : List (Event (Fin 2)) :=
  let buy : StgOrder := ⟨1, .buy, .opn, 10, 2, 0⟩
  let subscribed := [.subscribe 0 [TradeBaseInfo.rb1810], .subscribe 1 [TradeBaseInfo.rb1810]]
  subscribed ++ [.switchDay "20180814"] ++ subscribed ++
    [.tick ⟨1, 10, 9, 5⟩, .send 0 buy, .send 1 buy, .cancel 1 1,
      .rtn { msgType := ods .execution, localId := 1, vol := 2, price := 10 }]

/-- With a track of strategy 1 from before. -/
theorem strategy_alone_between :
    let ts : List OrderTrack := [{ stgId := 1, instrHash := 1, vol := 2, dir := .buy, off := .opn, price := 10 }]
    let start := StrategyProcess.start TradeBaseInfo.rb (fun _ : Fin 2 => rbStg) ts
    ∃ s l, start.run TradeBaseInfo.rb (fun _ => 1) (fun _ => {}) between = .ok s ∧
      (Alone.start TradeBaseInfo.rb rbStg ts).run TradeBaseInfo.rb (fun _ => 1) (fun _ => {})
        (start.views TradeBaseInfo.rb (fun _ => 1) (fun _ => {}) 1 between) = .ok l ∧ l.risk = s.risks 1 := by
  intro ts start
  obtain ⟨s, hs⟩ : ∃ s, start.run TradeBaseInfo.rb (fun _ => 1) (fun _ => {}) between = .ok s := by
    have hok : (start.run TradeBaseInfo.rb (fun _ => 1) (fun _ => {}) between).toOption.isSome := by decide +kernel
    cases hrun : start.run TradeBaseInfo.rb (fun _ => 1) (fun _ => {}) between with
    | ok s => exact ⟨s, rfl⟩
    | error f =>
      rw [hrun] at hok
      cases hok
  obtain ⟨l, hl, hrisk, -⟩ := strategy_alone TradeBaseInfo.rb (fun _ => 1) (fun _ => {}) (fun _ => rbStg) ts between
    s 1 (by decide +kernel) hs
  exact ⟨s, l, hs, hl, hrisk⟩

/-- Strategy 1 orders what only strategy 0 has subscribed: the process sends the order, and
a `CStrategy` refuses it. -/
example :
    let buy : StgOrder := ⟨1, .buy, .opn, 10, 2, 0⟩
    let es : List (Event (Fin 2)) := [.subscribe 0 [TradeBaseInfo.rb1810], .send 1 buy]
    let start := StrategyProcess.start TradeBaseInfo.rb (fun _ : Fin 2 => rbStg) []
    ((start.run TradeBaseInfo.rb (fun _ => 1) (fun _ => {}) es).toOption.map (·.told 1)) = some [.sent 0] ∧
      (((Alone.start TradeBaseInfo.rb rbStg []).run TradeBaseInfo.rb (fun _ => 1) (fun _ => {})
        (start.views TradeBaseInfo.rb (fun _ => 1) (fun _ => {}) 1 es)).toOption.map (·.told)) =
          some [.refused (-1)] := by
  decide +kernel

/-- **`strategy_list_` is long enough.** Whatever tracks the helper has fetched and whatever
the strategies do before `run`, no return is looked up behind the end of the list, and in
the loop every track names a strategy of it. -/
theorem never_behindEnd (base : TradeBaseInfo) (tickPrice : Hash → ℚ) (stale : Option (Ptr Hash) → UnitVol)
    {n : Nat} (loaded : Fin n → RiskStg) (ts : List OrderTrack) (main : List (Event (Fin n)))
    (hmain : ∀ e ∈ main, !e.inLoop) (day : String) (es : List (Event (Fin n))) :
    let run := (StrategyProcess.start base loaded ts).run base tickPrice stale (main ++ .switchDay day :: es)
    run ≠ .error .behindEnd ∧ ∀ s, run = .ok s → Listed n s.tracks := by
  intro run
  simp only [run, StrategyProcess.run]
  rw [List.foldlM_append]
  cases hrun : (StrategyProcess.start base loaded ts).run base tickPrice stale main with
  | error f =>
    rw [StrategyProcess.run] at hrun
    rw [hrun]
    exact ⟨fun hf => run_main hmain (hrun.trans hf), nofun⟩
  | ok s =>
    rw [StrategyProcess.run] at hrun
    rw [hrun]
    have hcleared : Listed n ([] : List OrderTrack) := by simp [Listed]
    exact hcleared.run es

/-- A track of a third strategy, and its return. -/
theorem never_behindEnd_third :
    let ts : List OrderTrack := [{ stgId := 2, instrHash := 1, vol := 2, dir := .buy, off := .opn, price := 10 }]
    ((StrategyProcess.start TradeBaseInfo.rb (fun _ : Fin 2 => rbStg) ts).run TradeBaseInfo.rb (fun _ => 1)
      (fun _ => {}) ([.subscribe 0 [TradeBaseInfo.rb1810]] ++ .switchDay "20180814" :: [.rtn { localId := 0 }])) ≠
        .error .behindEnd :=
  (never_behindEnd TradeBaseInfo.rb (fun _ => 1) (fun _ => {}) (fun _ => rbStg) _ [.subscribe 0 [TradeBaseInfo.rb1810]]
    (by decide) "20180814" [.rtn { localId := 0 }]).1

end NatFramework.Strategy
