import Mathlib.Data.List.Infix
import NatFramework.Io.CRawIOReader

/-!
# Replaying the pages of an engine

`CMDHelperReplayIo` gives a strategy the ticks of pages that are at rest: `scan` looks
for the first base information, and `read` gives, from there to the end time, the ticks
of the instruments that are subscribed. Between two ticks it holds back until a counter
is down, which each return puts up, and it sets the clock to the tick.

* `play`: what is to be given.
* `replays`: whatever the calls and the returns between them, it is given, in order and
  once each, and with enough calls all of it, and no tick is ahead of the clock.
-/
namespace NatFramework.Md

open Lib Io

/-- The values of `emIOCmdType`.
mirrors include/IOCommon.h:14-51 -/
def ioMarketData : Nat := 1
def ioTdRspBaseInfo : Nat := 13

/-- `cmd` is in front of every message. -/
def cmdOf (f : Frame) : Nat := ofLe (f.data.take 4)

/-- `hashOf` finds the hash of the instrument in a tick. `onInfo` is `CTradeBaseInfo::update`
with its callbacks, which may change what is subscribed. -/
structure ReplayParams where
  hashOf : List UInt8 → UInt32
  onInfo : List UInt8 → (UInt32 → Bool) → UInt32 → Bool

/-- `waitCount` is `g_replay_md_fake_wait_count`, and `secDiff` is the one of the clock.
mirrors md/CMDHelperReplayIO.h:46-49 -/
structure CMDHelperReplayIo where
  reader : CRawIOReader
  subs : UInt32 → Bool
  endNano : Int
  hasFinish : Bool := false
  firstTick : Bool := true
  waitCount : Int := 0
  secDiff : Int := 0

namespace CMDHelperReplayIo

variable (P : ReplayParams) (g : PageGroup)

/-- The base information found is of some trading day: of an empty one `update` would take
no notice, and the answer would be `false`.
mirrors md/CMDHelperReplayIO.cpp:86-103 -/
def scan (endNano : Int) : Nat → CRawIOReader → Option (CRawIOReader × Bool)
  | 0, _ => none
  | fuel + 1, r =>
    match r.read g with
    | (r, none) => some (r, false)
    | (r, some f) =>
      if endNano < f.nano then some (r, false)
      else if cmdOf f = ioTdRspBaseInfo then some (r, true)
      else scan endNano fuel r

/-- The loop of `read`.
mirrors md/CMDHelperReplayIO.cpp:38-76 -/
def readLoop : Nat → CMDHelperReplayIo → Option (CMDHelperReplayIo × Option Frame)
  | 0, _ => none
  | fuel + 1, s =>
    if s.hasFinish then some (s, none)
    else match s.reader.getCurFrame g with
      | (r, none) => some ({ s with reader := r, hasFinish := true }, none)
      | (r, some f) =>
        if s.endNano < f.nano then some ({ s with reader := r, hasFinish := true }, none)
        else if cmdOf f = ioMarketData then
          -- `filter` is true of what is not subscribed
          if s.subs (P.hashOf f.data) then some ({ s with reader := r.passFrame g }, some f)
          else readLoop fuel { s with reader := r.passFrame g }
        else if cmdOf f = ioTdRspBaseInfo then
          readLoop fuel { s with reader := r.passFrame g, subs := P.onInfo f.data s.subs }
        else readLoop fuel { s with reader := r.passFrame g }

/-- `wall` is what the system's clock says.
mirrors md/CMDHelperReplayIO.cpp:31-79 and utility/CTimer.cpp:72-87 -/
def read (fuel : Nat) (wall : Int) (s : CMDHelperReplayIo) : Option (CMDHelperReplayIo × Option Frame) :=
  if 0 < s.waitCount then some ({ s with waitCount := s.waitCount - 1 }, none)
  else
    match readLoop P g fuel { s with waitCount := 50 } with
    | some (s, some f) =>
      some ({ s with
        firstTick := false
        secDiff := if s.firstTick ∨ wall + s.secDiff < f.nano then f.nano - wall else s.secDiff }, some f)
    | r => r

/-- `bump`: a return has come, and `doGetRtn` puts the counter up. -/
inductive Event where
  | read (wall : Int)
  | bump

/-- With the ticks that are given. -/
def run (fuel : Nat) : CMDHelperReplayIo → List Event → Option (CMDHelperReplayIo × List Frame)
  | s, [] => some (s, [])
  | s, .bump :: es => run fuel { s with waitCount := s.waitCount + 1 } es
  | s, .read wall :: es =>
    (read P g fuel wall s).bind fun r => (run fuel r.1 es).map fun r' => (r'.1, r.2.toList ++ r'.2)

/-! ## What is to be given -/

/-- The frames behind the first base information. -/
def afterInfo (endNano : Int) : List Frame → Option (List Frame)
  | [] => none
  | f :: fs =>
    if endNano < f.nano then none
    else if cmdOf f = ioTdRspBaseInfo then some fs else afterInfo endNano fs

/-- The ticks up to the end time whose instrument is subscribed then. -/
def play (endNano : Int) : (UInt32 → Bool) → List Frame → List Frame
  | _, [] => []
  | subs, f :: fs =>
    if endNano < f.nano then []
    else if cmdOf f = ioMarketData then
      if subs (P.hashOf f.data) then f :: play endNano subs fs else play endNano subs fs
    else if cmdOf f = ioTdRspBaseInfo then play endNano (P.onInfo f.data subs) fs
    else play endNano subs fs

variable {P} {g} {fss : List (List Frame)} {out : List Frame} {r : CRawIOReader} {fuel : Nat}
  {s s' : CMDHelperReplayIo} {es : List Event}

/-- A frame that has been looked at is passed. -/
theorem passFrame_spec {f : Frame} (hc : g.Carries fss) (h : r.Reads g fss (f :: out)) :
    (r.getCurFrame g).2 = some f ∧ ((r.getCurFrame g).1.passFrame g).Reads g fss out := by
  refine ⟨(CRawIOReader.getCurFrame_spec hc h).1, ?_⟩
  unfold CRawIOReader.getCurFrame
  obtain ⟨hnil, -⟩ | ⟨r', p, k, before, fr, cur, he, hat, hp, hout⟩ :=
    CRawIOReader.atFrame_spec (f := fun p r => (r, some (frameAt p.mem r.cursor))) hc h
  · cases hnil
  · obtain ⟨rfl, rfl⟩ := List.cons.inj hout
    obtain ⟨q, hq, hm, -⟩ := hat.bears hc
    obtain rfl : p = q := Option.some.inj (hp.symm.trans hq)
    have hlt : r'.cursor < p.tail := (hat.laid p hp).2.lt_iff.mpr (List.cons_ne_nil _ _)
    have hstep := hat.step hp
    rw [Nat.add_assoc, Nat.add_comm sizeofFrameHead] at hstep
    rw [he]
    dsimp only
    rw [CRawIOReader.passFrame, hm]
    dsimp only
    rw [if_pos hlt]
    exact .inl ⟨k, before ++ [f], cur, hstep, rfl⟩

theorem scan_spec {endNano : Int} {rest : List Frame} (hc : g.Carries fss) (h : r.Reads g fss out)
    (hfuel : out.length < fuel) (hrest : afterInfo endNano out = some rest) :
    ∃ r', scan g endNano fuel r = some (r', true) ∧ r'.Reads g fss rest ∧ rest.length < out.length := by
  induction out generalizing fuel r with
  | nil => cases hrest
  | cons f out ih =>
    obtain ⟨fuel, rfl⟩ : ∃ k, fuel = k + 1 := ⟨fuel - 1, by omega⟩
    obtain ⟨hsome, hreads⟩ := CRawIOReader.read_spec hc h
    rw [afterInfo] at hrest
    rw [scan]
    cases hread : r.read g with
    | mk r₁ fo =>
      rw [hread] at hsome hreads
      subst hsome
      dsimp only [List.head?_cons]
      split_ifs at hrest ⊢ with hend hinfo
      · obtain rfl := Option.some.inj hrest
        exact ⟨r₁, rfl, hreads, Nat.lt_succ_self _⟩
      · obtain ⟨r', hscan, hr', hlen⟩ := ih hreads (Nat.lt_of_succ_lt_succ hfuel) hrest
        exact ⟨r', hscan, hr', Nat.lt_succ_of_lt hlen⟩

/-- What is still to be given. -/
def left (P : ReplayParams) (s : CMDHelperReplayIo) (out : List Frame) : List Frame :=
  if s.hasFinish then [] else play P s.endNano s.subs out

/-- The loop stops at the next tick, or at the end. -/
theorem readLoop_spec (hc : g.Carries fss) (h : s.reader.Reads g fss out) (hfuel : out.length < fuel) :
    ∃ s' fo out', readLoop P g fuel s = some (s', fo) ∧ s'.reader.Reads g fss out' ∧ out'.length ≤ out.length ∧
      left P s out = fo.toList ++ left P s' out' ∧ (fo = none → s'.hasFinish = true) ∧
      s'.waitCount = s.waitCount ∧ s'.secDiff = s.secDiff ∧ s'.firstTick = s.firstTick := by
  induction fuel generalizing s out with
  | zero => cases hfuel
  | succ fuel ih =>
    rw [readLoop]
    by_cases hfin : s.hasFinish = true
    · rw [if_pos hfin]
      exact ⟨s, none, out, rfl, h, Nat.le_refl _, rfl, fun _ => hfin, rfl, rfl, rfl⟩
    · rw [if_neg hfin, left, if_neg hfin]
      cases out with
      | nil =>
        obtain ⟨hnone, hreads⟩ := CRawIOReader.getCurFrame_spec hc h
        cases hget : s.reader.getCurFrame g with
        | mk r₁ fo =>
          rw [hget] at hnone hreads
          subst hnone
          exact ⟨_, none, [], rfl, hreads, Nat.le_refl _, rfl, fun _ => rfl, rfl, rfl, rfl⟩
      | cons f out =>
        obtain ⟨hsome, hpass⟩ := passFrame_spec hc h
        obtain ⟨-, hstay⟩ := CRawIOReader.getCurFrame_spec hc h
        have hlen : out.length ≤ (f :: out).length := Nat.le_succ _
        have hfuel' : out.length < fuel := Nat.lt_of_succ_lt_succ hfuel
        rw [play]
        cases hget : s.reader.getCurFrame g with
        | mk r₁ fo =>
          rw [hget] at hsome hpass hstay
          subst hsome
          dsimp only
          split_ifs with hend htick hsubs hinfo
          · exact ⟨_, none, _, rfl, hstay, Nat.le_refl _, rfl, fun _ => rfl, rfl, rfl, rfl⟩
          · refine ⟨_, some f, out, rfl, hpass, hlen, ?_, fun hf => (by cases hf), rfl, rfl, rfl⟩
            simp [left, hfin]
          · obtain ⟨s', fo, out', hrun, hr', hle, hleft, hrest⟩ :=
              ih (s := { s with reader := r₁.passFrame g }) hpass hfuel'
            rw [left, if_neg hfin] at hleft
            exact ⟨s', fo, out', hrun, hr', Nat.le_trans hle hlen, hleft, hrest⟩
          · obtain ⟨s', fo, out', hrun, hr', hle, hleft, hrest⟩ :=
              ih (s := { s with reader := r₁.passFrame g, subs := P.onInfo f.data s.subs }) hpass hfuel'
            rw [left, if_neg hfin] at hleft
            exact ⟨s', fo, out', hrun, hr', Nat.le_trans hle hlen, hleft, hrest⟩
          · obtain ⟨s', fo, out', hrun, hr', hle, hleft, hrest⟩ :=
              ih (s := { s with reader := r₁.passFrame g }) hpass hfuel'
            rw [left, if_neg hfin] at hleft
            exact ⟨s', fo, out', hrun, hr', Nat.le_trans hle hlen, hleft, hrest⟩

/-- One call: it holds back, or it gives the next tick, or there is none. -/
structure Given (P : ReplayParams) (wall : Int) (s : CMDHelperReplayIo) (out : List Frame)
    (s' : CMDHelperReplayIo) (fo : Option Frame) (out' : List Frame) : Prop where
  left : left P s out = fo.toList ++ CMDHelperReplayIo.left P s' out'
  length : out'.length ≤ out.length
  counted : 0 < s.waitCount ∧ fo = none ∧ s'.waitCount = s.waitCount - 1 ∨
    s.waitCount ≤ 0 ∧ s'.waitCount = 50 ∧ (fo = none → s'.hasFinish = true)
  ahead : ∀ f, fo = some f → s'.firstTick = false ∧ f.nano ≤ wall + s'.secDiff
  clock : s.firstTick = false → s'.firstTick = false ∧ s.secDiff ≤ s'.secDiff
  finish : s.hasFinish = true → s'.hasFinish = true

theorem read_spec (hc : g.Carries fss) (h : s.reader.Reads g fss out) (hfuel : out.length < fuel) (wall : Int) :
    ∃ s' fo out', read P g fuel wall s = some (s', fo) ∧ s'.reader.Reads g fss out' ∧
      Given P wall s out s' fo out' := by
  rw [read]
  split
  · rename_i hwait
    refine ⟨_, none, out, rfl, h,
      ⟨rfl, Nat.le_refl _, .inl ⟨hwait, rfl, rfl⟩, fun f hf => ?_, fun hf => ⟨hf, Int.le_refl _⟩, id⟩⟩
    cases hf
  · rename_i hwait
    obtain ⟨s₁, fo, out', hrun, hreads, hlen, hleft, hfin, hcount, hdiff, hfirst⟩ :=
      readLoop_spec (P := P) (s := { s with waitCount := 50 }) hc h hfuel
    have hle := Int.not_lt.mp hwait
    rw [hrun]
    cases fo with
    | none =>
      refine ⟨s₁, none, out', rfl, hreads, ⟨hleft, hlen, .inr ⟨hle, hcount, hfin⟩, fun f hf => ?_, fun hf => ?_,
        fun _ => hfin rfl⟩⟩
      · cases hf
      · exact ⟨hfirst.trans hf, Int.le_of_eq hdiff.symm⟩
    | some f =>
      refine ⟨_, some f, out', rfl, hreads, ⟨hleft, hlen, .inr ⟨hle, hcount, fun hf => (by cases hf)⟩, ?_, ?_, ?_⟩⟩
      · rintro f' ⟨⟩
        refine ⟨rfl, ?_⟩
        dsimp only
        split <;> omega
      · intro hf
        refine ⟨rfl, ?_⟩
        dsimp only at hfirst hdiff ⊢
        rw [hfirst, hf, hdiff]
        split
        · simp_all
          omega
        · exact Int.le_refl _
      · intro hf
        rw [left, if_pos hf] at hleft
        cases hleft

/-! ## Whole runs -/

def Event.isRead : Event → Bool
  | .read _ => true
  | .bump => false

def reads (es : List Event) : Nat := es.countP Event.isRead

def bumps (es : List Event) : Nat := es.countP fun e => !e.isRead

/-- What a run has given, what is left of it, and what the counter has held back. -/
structure Gives (P : ReplayParams) (s : CMDHelperReplayIo) (out : List Frame) (es : List Event)
    (s' : CMDHelperReplayIo) (got : List Frame) : Prop where
  left : ∃ out', CMDHelperReplayIo.left P s out = got ++ CMDHelperReplayIo.left P s' out'
  held : s'.hasFinish = false →
    (reads es : Int) + max 0 s'.waitCount ≤ max 0 s.waitCount + 51 * got.length + bumps es
  ahead : ∀ f ∈ got, ∀ wall, (∀ w, .read w ∈ es → w ≤ wall) → f.nano ≤ wall + s'.secDiff
  clock : s.firstTick = false → s'.firstTick = false ∧ s.secDiff ≤ s'.secDiff
  finish : s.hasFinish = true → s'.hasFinish = true

theorem run_spec (hc : g.Carries fss) (h : s.reader.Reads g fss out) (hfuel : out.length < fuel) :
    ∃ s' got, run P g fuel s es = some (s', got) ∧ Gives P s out es s' got := by
  induction es generalizing s out with
  | nil =>
    refine ⟨s, [], rfl, ⟨out, rfl⟩, fun _ => ?_, ?_, fun hf => ⟨hf, Int.le_refl _⟩, id⟩
    · simp [reads, bumps]
    · simp
  | cons e es ih =>
    cases e with
    | bump =>
      obtain ⟨s', got, hrun, hg⟩ := ih (s := { s with waitCount := s.waitCount + 1 }) h hfuel
      refine ⟨s', got, hrun, hg.left, fun hfin => ?_, fun f hf wall hw => ?_, hg.clock, hg.finish⟩
      · have hheld := hg.held hfin
        simp only [reads, bumps, List.countP_cons, Event.isRead] at hheld ⊢
        simp
        omega
      · exact hg.ahead f hf wall fun w hw' => hw w (List.mem_cons_of_mem _ hw')
    | read wall =>
      obtain ⟨s₁, fo, out₁, hread, hreads, hgiven⟩ := read_spec (P := P) hc h hfuel wall
      obtain ⟨s', got, hrun, hg⟩ := ih hreads (Nat.lt_of_le_of_lt hgiven.length hfuel)
      refine ⟨s', fo.toList ++ got, ?_, ?_, fun hfin => ?_, fun f hf w hw => ?_, fun hf => ?_, fun hfin => ?_⟩
      · rw [run, hread, Option.bind_some, hrun, Option.map_some]
      · obtain ⟨out', hleft⟩ := hg.left
        exact ⟨out', by rw [hgiven.left, hleft, List.append_assoc]⟩
      · have hfin₁ : ¬s₁.hasFinish = true := fun hf => by rw [hg.finish hf] at hfin; cases hfin
        have hheld := hg.held hfin
        simp only [reads, bumps, List.countP_cons, Event.isRead] at hheld ⊢
        rcases hgiven.counted with ⟨hwait, rfl, hcount⟩ | ⟨hwait, hcount, hnone⟩
        · simp
          omega
        · cases fo with
          | none => exact absurd (hnone rfl) hfin₁
          | some f =>
            simp
            omega
      · rcases List.mem_append.mp hf with hf | hf
        · obtain ⟨hfirst, hnano⟩ := hgiven.ahead f (by simpa using hf)
          have hdiff := (hg.clock hfirst).2
          have hwall := hw wall List.mem_cons_self
          omega
        · exact hg.ahead f hf w fun w' hw' => hw w' (List.mem_cons_of_mem _ hw')
      · obtain ⟨hfirst, hdiff⟩ := hgiven.clock hf
        obtain ⟨hfirst', hdiff'⟩ := hg.clock hfirst
        exact ⟨hfirst', Int.le_trans hdiff hdiff'⟩
      · exact hg.finish (hgiven.finish hfin)

/-- A run that starts behind the scan. -/
theorem run_play (hc : g.Carries fss) (h : r.Reads g fss out) (hfuel : out.length < fuel) (endNano : Int)
    (subs : UInt32 → Bool) (waitCount : Int) (es : List Event) :
    ∃ s' got,
      run P g fuel { reader := r, subs := subs, endNano := endNano, waitCount := waitCount } es = some (s', got) ∧
      got <+: play P endNano subs out ∧ (s'.hasFinish = true → got = play P endNano subs out) ∧
      (max 0 waitCount + 51 * (play P endNano subs out).length + bumps es < reads es → s'.hasFinish = true) ∧
      ∀ f ∈ got, ∀ wall, (∀ w, .read w ∈ es → w ≤ wall) → f.nano ≤ wall + s'.secDiff := by
  let s : CMDHelperReplayIo := { reader := r, subs := subs, endNano := endNano, waitCount := waitCount }
  obtain ⟨s', got, hrun, hg⟩ : ∃ s' got, run P g fuel s es = some (s', got) ∧ Gives P s out es s' got :=
    run_spec hc h hfuel
  obtain ⟨out', hleft⟩ := hg.left
  have hplay : play P endNano subs out = got ++ left P s' out' := hleft
  have hfront : got <+: play P endNano subs out := ⟨_, hplay.symm⟩
  refine ⟨s', got, hrun, hfront, fun hfin => ?_, fun hmany => ?_, hg.ahead⟩
  · rw [hplay, left, if_pos hfin, List.append_nil]
  · by_contra hnot
    have hheld := hg.held (Bool.not_eq_true _ ▸ hnot)
    have hle := hfront.length_le
    dsimp only [s] at hheld
    omega

/-- **A replay gives what is in the pages.** Behind the first base information, whatever
calls are made and whatever returns come between them: the ticks given are the first of
those up to the end time whose instrument is subscribed then, in order and once each;
calls enough give all of them, and set the flag; and no tick is ahead of the clock. -/
theorem replays (P : ReplayParams) (hc : g.Carries fss) (h : r.Reads g fss out) (hfuel : out.length < fuel)
    (endNano : Int) (subs : UInt32 → Bool) (waitCount : Int) {rest : List Frame}
    (hrest : afterInfo endNano out = some rest) (es : List Event) :
    ∃ r' s' got, scan g endNano fuel r = some (r', true) ∧
      run P g fuel { reader := r', subs := subs, endNano := endNano, waitCount := waitCount } es = some (s', got) ∧
      got <+: play P endNano subs rest ∧ (s'.hasFinish = true → got = play P endNano subs rest) ∧
      (max 0 waitCount + 51 * (play P endNano subs rest).length + bumps es < reads es → s'.hasFinish = true) ∧
      ∀ f ∈ got, ∀ wall, (∀ w, .read w ∈ es → w ≤ wall) → f.nano ≤ wall + s'.secDiff := by
  obtain ⟨r', hscan, hreads, hlen⟩ := scan_spec hc h hfuel hrest
  obtain ⟨s', got, hrun⟩ := run_play hc hreads (Nat.lt_trans hlen hfuel) endNano subs waitCount es
  exact ⟨r', s', got, hscan, hrun⟩

/-! ### Two ticks behind the base information -/

def recorded : PageGroup where
  first := 3
  pages := [
    { fileSize := 130, version := 1, size := 130, tail := 119, lastNano := 7,
      mem := fun a => [0x23, 4, 0x18, 0x20, 4, 0, 0, 0, 5, 0, 0, 0, 0, 0, 0, 0, 0, 0, 0, 0, 13, 0, 0, 0,
        0x23, 4, 0x18, 0x20, 5, 0, 0, 0, 6, 0, 0, 0, 0, 0, 0, 0, 0, 0, 0, 0, 1, 0, 0, 0, 70,
        0x23, 4, 0x18, 0x20, 5, 0, 0, 0, 7, 0, 0, 0, 0, 0, 0, 0, 0, 0, 0, 0, 1, 0, 0, 0, 80].getD (a - 45) 0 }]

def recordedFrames : List (List Frame) := [[⟨5, [13, 0, 0, 0]⟩, ⟨6, [1, 0, 0, 0, 70]⟩, ⟨7, [1, 0, 0, 0, 80]⟩]]

theorem recorded_static : recorded.Static recordedFrames where
  holds := .cons
    { head := by decide
      laid := ⟨⟨by decide, by decide, by decide, by decide⟩, ⟨by decide, by decide, by decide, by decide⟩,
        ⟨by decide, by decide, by decide, by decide⟩, rfl⟩
      tail_le := by decide
      lastNano := by decide }
    .nil
  finished := by
    intro k p _ hk
    have hk' : k + 1 < 1 := hk
    omega

theorem replays_recorded :
    let P : ReplayParams := ⟨fun data => (data.getD 4 0).toUInt32, fun _ subs => subs⟩
    ∃ r' s' got, scan recorded 9 4 { pageNum := 3 } = some (r', true) ∧
      run P recorded 4 { reader := r', subs := fun h => h = 80, endNano := 9 }
        (.bump :: List.replicate 53 (.read 2)) = some (s', got) ∧
      got = [⟨7, [1, 0, 0, 0, 80]⟩] ∧ ∀ f ∈ got, f.nano ≤ 2 + s'.secDiff := by
  intro P
  have hreads : CRawIOReader.Reads recorded recordedFrames { pageNum := 3 } recordedFrames.flatten := .inr ⟨rfl, rfl⟩
  obtain ⟨r', s', got, hscan, hrun, -, hall, hmany, hclock⟩ := replays P recorded_static.carries hreads
    (show 3 < 4 by decide) 9 (fun h => h = 80) 0
    (show afterInfo 9 recordedFrames.flatten = some [⟨6, [1, 0, 0, 0, 70]⟩, ⟨7, [1, 0, 0, 0, 80]⟩] by decide)
    (.bump :: List.replicate 53 (.read 2))
  refine ⟨r', s', got, hscan, hrun, ?_, fun f hf => hclock f hf 2 fun w hw => ?_⟩
  · exact hall (hmany (by decide))
  · simp_all

end CMDHelperReplayIo

end NatFramework.Md
