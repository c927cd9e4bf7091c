import NatFramework.Signal.Framed

/-!
# Any peer

The handlers of packages of both sides, run under the checker: `checkedPkg`. What
`CService` hands them is a head and what the head's length adds, with any content;
neither handler looks at the length before it reads on.

* `End`: a side of a connection, `End.run` what it makes of the reads of a stream.
* `eq_processPkg`: a run that the checker lets through does what the relay's does.
* `survives_iff`: it lets all of a run through exactly when every package fits.
-/
namespace NatFramework.Signal

open Lib Checked

/-! ## The handlers -/

namespace CSignalServer

/-- The loop over the names; `k` are left, the next is at offset `off`.
mirrors signal_agent/CSignalServer.cpp:41-46 -/
def addNames (p : List UInt8) : Nat → Nat → CSignalServer → Checked CSignalServer
  | 0, _, s => .ok s
  | k + 1, off, s => do
    let sigName ← readCStr p off
    addNames p k (off + sigName.1.length + 1) (s.addReader sigName)

/-- mirrors signal_agent/CSignalServer.cpp:33-61 -/
def checkedPkg (p : List UInt8) (s : CSignalServer) : Checked (Option CSignalServer) := do
  let cmd ← readByte p 2
  if cmd = SACMD_REQ_SIG then
    let sigCnt ← readInt p 7
    some <$> addNames p sigCnt.toNat 11 s
  else if cmd = SACMD_REQ_HEATBEAT then
    let r := s.toCService.sendData replyPkg
    .ok (some { s with
      toCService := r.1, history := if r.2 then s.history ++ [.reply] else s.history })
  else .ok none

end CSignalServer

namespace CSignalRequester

/-- `writers_` has one for each of `signames_`; `len` is a `uint32_t`.
mirrors signal_agent/CSignalRequester.cpp:37-55 -/
def checkedPkg (p : List UInt8) (c : CSignalRequester) : Checked (Option CSignalRequester) := do
  let cmd ← readByte p 2
  if cmd = SACMD_SIGNAL_DATA then
    let sigIdx ← readInt p 7
    check (0 ≤ sigIdx ∧ sigIdx < c.signames.length) (.index sigIdx)
    let len ← cutLen p 11 p.length 11
    let sigData ← readSpan p 11 len
    .ok (some { c with
      pages := fun i => if i = sigIdx.toNat then c.pages i ++ [sigData] else c.pages i })
  else if cmd = SACMD_REP_HEATBEAT then .ok (some c)
  else .ok none

end CSignalRequester

/-! ## A side of a connection -/

inductive End where
  | server (s : CSignalServer)
  | requester (c : CSignalRequester)

namespace End

def service : End → CService
  | .server s => s.toCService
  | .requester c => c.toCService

def withService (t : CService) : End → End
  | .server s => .server { s with toCService := t }
  | .requester c => .requester { c with toCService := t }

def closed : End → Bool
  | .server s => s.closed
  | .requester c => c.closed

def close : End → End
  | .server s => .server s.close
  | .requester c => .requester c.close

def checkedPkg (p : List UInt8) : End → Checked (Option End)
  | .server s => Option.map .server <$> s.checkedPkg p
  | .requester c => Option.map .requester <$> c.checkedPkg p

/-- One `read` of a stream that has `bytes` ready. -/
def turn (bytes : List UInt8) (e : End) : CService × ReadOut :=
  let got := bytes.take e.service.want
  if e.closed || got.isEmpty then (e.service, .more)
  else e.service.readTurn (processHead e.service.readSize) got

def read (bytes : List UInt8) (e : End) : Checked End :=
  let r := e.turn bytes
  let e := e.withService r.1
  match r.2 with
  | .more => .ok e
  | .pkg p => (fun o => o.getD e.close) <$> e.checkedPkg p
  | .bad => .ok e.close

def run (e : End) (es : List (List UInt8)) : Checked End :=
  es.foldlM (fun e bytes => e.read bytes) e

/-- The package that a `read` completes. -/
def delivers (bytes : List UInt8) (e : End) : Option (List UInt8) :=
  match (e.turn bytes).2 with
  | .pkg p => some p
  | _ => none

/-- The commands a side serves. -/
def Serves : End → UInt8 → Prop
  | .server _, cmd => cmd = SACMD_REQ_SIG ∨ cmd = SACMD_REQ_HEATBEAT
  | .requester _, cmd => cmd = SACMD_SIGNAL_DATA ∨ cmd = SACMD_REP_HEATBEAT

/-- A request has its count and as many zeros behind it as it counts names; data has
its index, which is one of a writer. -/
def Fits : End → List UInt8 → Prop
  | .server _, p => cmdOf p = SACMD_REQ_SIG →
      11 ≤ p.length ∧ (asInt32 (fieldOf p)).toNat ≤ (p.drop 11).count 0
  | .requester c, p => cmdOf p = SACMD_SIGNAL_DATA →
      11 ≤ p.length ∧ 0 ≤ asInt32 (fieldOf p) ∧ asInt32 (fieldOf p) < c.signames.length

end End

/-- How a connection starts. -/
inductive Opening where
  | server (p : Mem) (size : Nat) (h : size < 2 ^ 32)
  | requester (p : Mem) (bufSize : Nat) (names : List Name)

def Opening.start : Opening → End
  | .server p size h => .server (Relay.newServer p size h)
  | .requester p bufSize names => .requester (Relay.newClient p bufSize names)


/-! ## What the checker lets through -/

theorem readInt_field {p : List UInt8} (h : 11 ≤ p.length) :
    readInt p 7 = .ok (asInt32 (fieldOf p)) := readInt_of_le h

namespace CSignalServer

variable {p : List UInt8} {s s' : CSignalServer}

/-- The loop goes through when there is a 0 for every name. -/
theorem passes_addNames (p : List UInt8) (k off : Nat) (s : CSignalServer) :
    Passes (addNames p k off s) ↔ k ≤ (p.drop off).count 0 := by
  induction k generalizing off s with
  | zero => exact iff_of_true (passes_ok s) (Nat.zero_le _)
  | succ k ih =>
    rw [addNames, passes_bind]
    by_cases hmem : 0 ∈ p.drop off
    · obtain ⟨name, hname, hcount⟩ := readCStr_of_mem hmem
      rw [hname, ← hcount, Nat.succ_le_succ_iff, ← ih]
      exact ⟨fun ⟨a, ha, hpass⟩ => by cases ha; exact hpass, fun hpass => ⟨name, rfl, hpass⟩⟩
    · rw [readCStr_of_not_mem hmem, List.count_eq_zero_of_not_mem hmem]
      exact iff_of_false (fun ⟨_, ha, _⟩ => by cases ha) (Nat.not_succ_le_zero k)

/-- The names it finds are those of the request. -/
theorem addNames_eq {k off : Nat} (h : addNames p k off s = .ok s') :
    s' = (sigNames k (p.drop off)).foldl addReader s := by
  induction k generalizing off s with
  | zero =>
    cases h
    rfl
  | succ k ih =>
    obtain ⟨name, hname, hrest⟩ := bind_eq_ok.mp h
    have hstr : name = cString (p.drop off) := by
      unfold readCStr at hname
      split at hname
      · cases hname
        rfl
      · cases hname
    subst hstr
    rw [ih hrest, sigNames, List.foldl_cons, Nat.add_assoc, ← List.drop_drop]

/-- A package has its head, so that its command is read. -/
theorem checkedPkg_cmd (hlen : 7 ≤ p.length) : s.checkedPkg p =
    if cmdOf p = SACMD_REQ_SIG then
      readInt p 7 >>= fun sigCnt => some <$> addNames p sigCnt.toNat 11 s
    else .ok (s.processPkg p) := by
  have hread : readByte p 2 = .ok (cmdOf p) := readByte_of_lt (by omega)
  unfold checkedPkg
  rw [hread, ok_bind]
  by_cases hcmd : cmdOf p = SACMD_REQ_SIG
  · rw [if_pos hcmd, if_pos hcmd]
  · rw [if_neg hcmd, if_neg hcmd, processPkg, if_neg hcmd]
    by_cases hheart : cmdOf p = SACMD_REQ_HEATBEAT
    · rw [if_pos hheart, if_pos hheart]
    · rw [if_neg hheart, if_neg hheart]

theorem passes_checkedPkg (hlen : 7 ≤ p.length) :
    Passes (s.checkedPkg p) ↔ (End.server s).Fits p := by
  rw [checkedPkg_cmd hlen, End.Fits]
  by_cases hcmd : cmdOf p = SACMD_REQ_SIG
  · rw [if_pos hcmd, forall_prop_of_true hcmd]
    by_cases hcnt : 11 ≤ p.length
    · rw [readInt_field hcnt, ok_bind, passes_map, passes_addNames, and_iff_right hcnt]
    · rw [readInt_of_lt (by omega)]
      exact iff_of_false (not_passes_error _) fun h => hcnt h.1
  · rw [if_neg hcmd]
    exact iff_of_true (passes_ok _) fun h => absurd h hcmd

theorem eq_processPkg (hlen : 7 ≤ p.length) {o : Option CSignalServer}
    (h : s.checkedPkg p = .ok o) : o = s.processPkg p := by
  rw [checkedPkg_cmd hlen] at h
  by_cases hcmd : cmdOf p = SACMD_REQ_SIG
  · rw [if_pos hcmd] at h
    obtain ⟨sigCnt, hcnt, hnames⟩ := bind_eq_ok.mp h
    have hfit : 11 ≤ p.length := by
      by_contra hshort
      rw [readInt_of_lt (by omega)] at hcnt
      cases hcnt
    rw [readInt_field hfit] at hcnt
    obtain ⟨s', hadd, rfl⟩ := map_eq_ok.mp hnames
    rw [← Except.ok.inj hcnt] at hadd
    rw [processPkg, if_pos hcmd, addNames_eq hadd]
  · rw [if_neg hcmd] at h
    exact (Except.ok.inj h).symm

end CSignalServer

namespace CSignalRequester

variable {p : List UInt8} {c : CSignalRequester}

theorem checkedPkg_cmd (hlen : 7 ≤ p.length) : c.checkedPkg p =
    if cmdOf p = SACMD_SIGNAL_DATA then
      readInt p 7 >>= fun sigIdx =>
        check (0 ≤ sigIdx ∧ sigIdx < c.signames.length) (.index sigIdx) >>= fun _ =>
          cutLen p 11 p.length 11 >>= fun len => readSpan p 11 len >>= fun sigData =>
            .ok (some { c with
              pages := fun i => if i = sigIdx.toNat then c.pages i ++ [sigData] else c.pages i })
    else if cmdOf p = SACMD_REP_HEATBEAT then .ok (some c)
    else .ok none := by
  unfold checkedPkg
  rw [readByte_of_lt (by omega), ok_bind]
  rfl

/-- With an index of a writer, the payload is what is written for it. -/
theorem checkedPkg_data (hlen : 11 ≤ p.length) (hcmd : cmdOf p = SACMD_SIGNAL_DATA)
    (hidx : 0 ≤ asInt32 (fieldOf p) ∧ asInt32 (fieldOf p) < c.signames.length) :
    c.checkedPkg p = .ok (some { c with
      pages := fun i => if i = (asInt32 (fieldOf p)).toNat
        then c.pages i ++ [(p.drop 11).take ((p.length - 11) % 2 ^ 32)] else c.pages i }) := by
  have hleft := Nat.mod_le (p.length - 11) (2 ^ 32)
  rw [checkedPkg_cmd (by omega), if_pos hcmd, readInt_field hlen, ok_bind,
    check_of hidx, ok_bind, cutLen_of_le hlen (by decide) rfl, ok_bind,
    readSpan_of_le (by omega), ok_bind]

theorem passes_checkedPkg (hlen : 7 ≤ p.length) :
    Passes (c.checkedPkg p) ↔ (End.requester c).Fits p := by
  rw [End.Fits]
  by_cases hcmd : cmdOf p = SACMD_SIGNAL_DATA
  · rw [forall_prop_of_true hcmd]
    by_cases hidx : 11 ≤ p.length
    · rw [and_iff_right hidx]
      by_cases hin : 0 ≤ asInt32 (fieldOf p) ∧ asInt32 (fieldOf p) < c.signames.length
      · rw [checkedPkg_data hidx hcmd hin]
        exact iff_of_true (passes_ok _) hin
      · rw [checkedPkg_cmd hlen, if_pos hcmd, readInt_field hidx, ok_bind, check_of_not hin]
        exact iff_of_false (not_passes_error _) hin
    · rw [checkedPkg_cmd hlen, if_pos hcmd, readInt_of_lt (by omega)]
      exact iff_of_false (not_passes_error _) fun h => hidx h.1
  · rw [checkedPkg_cmd hlen, if_neg hcmd]
    refine iff_of_true ?_ fun h => absurd h hcmd
    split
    · exact passes_ok _
    · exact passes_ok _

theorem eq_processPkg (hlen : 7 ≤ p.length ∧ p.length < 2 ^ 32) {o : Option CSignalRequester}
    (h : c.checkedPkg p = .ok o) : o = c.processPkg p := by
  by_cases hcmd : cmdOf p = SACMD_SIGNAL_DATA
  · obtain ⟨hidx, hin⟩ := (passes_checkedPkg hlen.1).mp ⟨o, h⟩ hcmd
    have hfield : fieldOf p < 2 ^ 32 := by
      have hlt := ofLe_lt ((p.drop 7).take 4)
      rw [List.length_take, List.length_drop, Nat.min_eq_left (by omega)] at hlt
      exact hlt
    rw [checkedPkg_data hidx hcmd hin, toNat_asInt32 hfield hin.1, Nat.mod_eq_of_lt (by omega),
      List.take_of_length_le (by rw [List.length_drop])] at h
    rw [processPkg, if_pos hcmd]
    exact (Except.ok.inj h).symm
  · rw [checkedPkg_cmd hlen.1, if_neg hcmd] at h
    rw [processPkg, if_neg hcmd]
    split at h
    · rename_i hheart
      rw [if_pos hheart]
      exact (Except.ok.inj h).symm
    · rename_i hheart
      rw [if_neg hheart]
      exact (Except.ok.inj h).symm

end CSignalRequester

/-! ## Runs -/

namespace End

variable {e e' : End} {p bytes : List UInt8}

theorem passes_checkedPkg (hlen : 7 ≤ p.length) : Passes (e.checkedPkg p) ↔ e.Fits p := by
  cases e with
  | server s => exact passes_map.trans (CSignalServer.passes_checkedPkg hlen)
  | requester c => exact passes_map.trans (CSignalRequester.passes_checkedPkg hlen)

/-- A command that a side does not serve is answered with -1. -/
theorem checkedPkg_of_not_serves (hlen : 7 ≤ p.length) (h : ¬e.Serves (cmdOf p)) :
    e.checkedPkg p = .ok none := by
  cases e with
  | server s =>
    obtain ⟨hreq, hheart⟩ := not_or.mp h
    rw [checkedPkg, CSignalServer.checkedPkg_cmd hlen, if_neg hreq, CSignalServer.processPkg,
      if_neg hreq, if_neg hheart]
    rfl
  | requester c =>
    obtain ⟨hdata, hheart⟩ := not_or.mp h
    rw [checkedPkg, CSignalRequester.checkedPkg_cmd hlen, if_neg hdata, if_neg hheart]
    rfl

/-- A handler does not touch where the reading stands. -/
theorem service_checkedPkg (hlen : 7 ≤ p.length) (h : e.checkedPkg p = .ok (some e')) :
    CService.SameReading e'.service e.service := by
  cases e with
  | server s =>
    obtain ⟨o, ho, hsome⟩ := map_eq_ok.mp h
    obtain ⟨s', rfl, rfl⟩ := Option.map_eq_some_iff.mp hsome
    have heq := CSignalServer.eq_processPkg hlen ho
    unfold CSignalServer.processPkg at heq
    split at heq
    · rw [Option.some.inj heq, service, service, (foldl_addReader _ s).1]
      exact CService.SameReading.refl _
    · split at heq
      · cases heq
        exact CService.sameReading_sendData _ _
      · cases heq
  | requester c =>
    obtain ⟨o, ho, hsome⟩ := map_eq_ok.mp h
    obtain ⟨c', rfl, rfl⟩ := Option.map_eq_some_iff.mp hsome
    rw [CSignalRequester.checkedPkg_cmd hlen] at ho
    split at ho
    · obtain ⟨_, _, ho⟩ := bind_eq_ok.mp ho
      obtain ⟨_, _, ho⟩ := bind_eq_ok.mp ho
      obtain ⟨_, _, ho⟩ := bind_eq_ok.mp ho
      obtain ⟨_, _, ho⟩ := bind_eq_ok.mp ho
      rw [← Option.some.inj (Except.ok.inj ho)]
      exact CService.SameReading.refl _
    · split at ho
      · cases ho
        exact CService.SameReading.refl _
      · cases ho

/-- Either nothing is ever read, or what is read past is a head at least. -/
def Cut (t : CService) : Prop :=
  t.headSize = 0 ∧ t.readBody = false ∧ t.readBuf = [] ∨
    t.headSize = 7 ∧ (t.readBody = true → 7 ≤ t.readBuf.length)

theorem Cut.congr {t t' : CService} (h : Cut t) (hsame : CService.SameReading t' t) : Cut t' := by
  unfold Cut
  rw [hsame.headSize, hsame.readBody, hsame.readBuf]
  exact h

@[simp] theorem service_withService (t : CService) (e : End) : (e.withService t).service = t := by
  cases e <;> rfl

@[simp] theorem service_close (e : End) : e.close.service = e.service := by cases e <;> rfl

/-- What `read` completes has its head. -/
theorem cut_readTurn {t : CService} (hhead : t.headSize = 7)
    (hbody : t.readBody = true → 7 ≤ t.readBuf.length) (f : List UInt8 → Option Nat)
    (got : List UInt8) : Cut (t.readTurn f got).1 ∧
      ∀ p, (t.readTurn f got).2 = .pkg p → 7 ≤ p.length := by
  unfold CService.readTurn
  dsimp only
  by_cases hfull : (t.readBuf ++ got).length = if t.readBody then t.pkgSize else t.headSize
  · have hseven : 7 ≤ (t.readBuf ++ got).length := by
      by_cases hstate : t.readBody = true
      · have hbuf := hbody hstate
        rw [List.length_append]
        omega
      · rw [hfull, if_neg hstate, hhead]
    rw [if_pos hfull]
    generalize (if t.readBody then some t.pkgSize else f (t.readBuf ++ got)) = o
    cases o with
    | none => exact ⟨.inr ⟨hhead, fun _ => hseven⟩, fun p hp => by cases hp⟩
    | some n =>
      dsimp only
      split
      · refine ⟨.inr ⟨hhead, fun hp => by cases hp⟩, fun p hp => ?_⟩
        cases hp
        exact hseven
      · exact ⟨.inr ⟨hhead, fun _ => hseven⟩, fun p hp => by cases hp⟩
  · rw [if_neg hfull]
    refine ⟨.inr ⟨hhead, fun hstate => ?_⟩, fun p hp => by cases hp⟩
    have hbuf := hbody hstate
    simp only [List.length_append]
    omega

theorem turn_spec (h : Cut e.service) (bytes : List UInt8) : Cut (e.turn bytes).1 ∧
    ∀ p, (e.turn bytes).2 = .pkg p → 7 ≤ p.length := by
  unfold turn
  dsimp only
  split
  · exact ⟨h, fun p hp => by cases hp⟩
  · rename_i hgo
    rcases h with ⟨hzero, hstate, hempty⟩ | ⟨hhead, hbody⟩
    · have hwant : e.service.want = 0 := by simp [CService.want, hzero, hstate, hempty]
      rw [hwant, List.take_zero] at hgo
      simp at hgo
    · exact cut_readTurn hhead hbody _ _

/-- A `read` goes through exactly when the package it completes fits, if it does
complete one. -/
theorem passes_read (h : Cut e.service) (bytes : List UInt8) :
    Passes (e.read bytes) ↔ ∀ p, e.delivers bytes = some p → e.Fits p := by
  have hfits : ∀ (t : CService) (p : List UInt8), (e.withService t).Fits p ↔ e.Fits p := by
    intro t p
    cases e <;> rfl
  have hlen := (turn_spec h bytes).2
  unfold read delivers
  dsimp only
  cases hturn : (e.turn bytes).2 with
  | more => exact iff_of_true (passes_ok _) fun p hp => by cases hp
  | bad => exact iff_of_true (passes_ok _) fun p hp => by cases hp
  | pkg p =>
    rw [passes_map, passes_checkedPkg (hlen p hturn), hfits]
    exact ⟨fun hfit q hq => by cases hq; exact hfit, fun hall => hall p rfl⟩

theorem cut_read (h : Cut e.service) (hread : e.read bytes = .ok e') : Cut e'.service := by
  obtain ⟨hcut, hlen⟩ := turn_spec h bytes
  unfold read at hread
  dsimp only at hread
  cases hturn : (e.turn bytes).2 with
  | more =>
    rw [hturn] at hread
    cases hread
    simpa using hcut
  | bad =>
    rw [hturn] at hread
    cases hread
    simpa using hcut
  | pkg p =>
    rw [hturn] at hread
    obtain ⟨o, ho, rfl⟩ := map_eq_ok.mp hread
    cases o with
    | none => simpa using hcut
    | some e'' =>
      have hsame := service_checkedPkg (hlen p hturn) ho
      rw [service_withService] at hsame
      exact hcut.congr hsame

theorem run_concat (e : End) (es : List (List UInt8)) (bytes : List UInt8) :
    e.run (es ++ [bytes]) = e.run es >>= fun e' => e'.read bytes := by
  unfold run
  rw [List.foldlM_append]
  congr 1
  funext e'
  simp

end End

theorem sameReading_foldl (names : List Name) (t : CService) :
    CService.SameReading (names.foldl (fun t n => (t.sendData (n.1 ++ [0])).1) t) t := by
  induction names generalizing t with
  | nil => exact CService.SameReading.refl t
  | cons n names ih => exact (ih _).trans (CService.sameReading_sendData _ t)

namespace Opening

theorem cut_start (o : Opening) : End.Cut o.start.service := by
  cases o with
  | server p size h => exact .inr ⟨rfl, fun hp => by cases hp⟩
  | requester p bufSize names =>
    have hfresh : End.Cut (({ readSize := bufSize, writeBuf := Relay.newBuf p 4096 (by decide) } :
        CService).setHeadSize 7) := by
      unfold CService.setHeadSize
      split
      · exact .inr ⟨rfl, fun hp => by cases hp⟩
      · exact .inl ⟨rfl, rfl, rfl⟩
    exact hfresh.congr ((sameReading_foldl names _).trans (CService.sameReading_sendData _ _))

theorem cut_run {o : Opening} {es : List (List UInt8)} {e : End} (h : o.start.run es = .ok e) :
    End.Cut e.service := by
  induction es using List.reverseRecOn generalizing e with
  | nil =>
    cases h
    exact o.cut_start
  | append_singleton es bytes ih =>
    rw [End.run_concat] at h
    obtain ⟨e', he', hread⟩ := bind_eq_ok.mp h
    exact End.cut_read (ih he') hread

/-- `P` holds of every package a run delivers and the side it is delivered to. -/
def AtPackages (o : Opening) (P : End → List UInt8 → Prop) (es : List (List UInt8)) : Prop :=
  AtEach (fun pre bytes => ∀ e p, o.start.run pre = .ok e → e.delivers bytes = some p → P e p) es

theorem passes_run (o : Opening) (es : List (List UInt8)) :
    Passes (o.start.run es) ↔ o.AtPackages End.Fits es := by
  induction es using List.reverseRecOn with
  | nil => exact iff_of_true (passes_ok _) (atEach_nil _)
  | append_singleton es bytes ih =>
    rw [End.run_concat, passes_bind, AtPackages, atEach_concat]
    constructor
    · rintro ⟨e, he, hread⟩
      refine ⟨ih.mp ⟨e, he⟩, fun e' p he' hp => ?_⟩
      rw [he] at he'
      cases he'
      exact (End.passes_read (cut_run he) bytes).mp hread p hp
    · rintro ⟨hes, hlast⟩
      obtain ⟨e, he⟩ := ih.mpr hes
      exact ⟨e, he, (End.passes_read (cut_run he) bytes).mpr fun p hp => hlast e p he hp⟩

/-- Packages of a command that a side does not serve are refused. -/
theorem refuses (o : Opening) (es : List (List UInt8)) : o.AtPackages
    (fun e p => ¬e.Serves (cmdOf p) → e.checkedPkg p = .ok none) es := by
  rintro pre bytes post rfl e p he hp hserves
  refine End.checkedPkg_of_not_serves ?_ hserves
  unfold End.delivers at hp
  split at hp
  · rename_i hturn
    cases hp
    exact (End.turn_spec (cut_run he) bytes).2 _ hturn
  · cases hp

/-- Whatever a peer sends, on either side and however it is read: the handlers stay
inside the packages, the writers and the payloads and refuse what is not served,
exactly when every request has its count and as many zeros behind it as it counts
names, and all data the index of a writer. -/
theorem survives_iff (o : Opening) (es : List (List UInt8)) :
    (Passes (o.start.run es) ∧ o.AtPackages
      (fun e p => ¬e.Serves (cmdOf p) → e.checkedPkg p = .ok none) es) ↔
    o.AtPackages End.Fits es := by
  rw [passes_run]
  exact and_iff_left (o.refuses es)

/-- A request for one name that does not end, and data of an index before the first
writer. -/
theorem overrun :
    ¬Passes ((server (fun _ => 0) 64 (by decide)).start.run
      [[0x88, 1, 1, 12, 0, 0, 0], [1, 0, 0, 0, 0x41]]) ∧
    ¬Passes ((requester (fun _ => 0) 64 [⟨[0x41], by decide⟩]).start.run
      [[0x88, 1, 2, 12, 0, 0, 0], [0xff, 0xff, 0xff, 0xff, 0x41]]) := by
  decide +kernel

end Opening

end NatFramework.Signal
