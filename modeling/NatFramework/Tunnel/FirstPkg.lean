import NatFramework.Lib.Checked
import NatFramework.Tunnel.FileTransfer

/-!
# First packets

`processFirstPkg` of `CFileReciever` and `CSaveFileCmd` under the checker. The length
of the packet is a `uint32_t` from which the command, the file head and the name are
taken off one by one; only before the file head is there a test.

* `checkedHead_eq`, `checkedName_eq`: from the six bytes of a command on, all that is
  read is there and every length is what is left.
* `Handles`: what a step reads is there exactly when, and a packet that is too short
  is refused; `handles_run` of both receivers.
-/
namespace NatFramework.Tunnel

open Lib Checked

/-- mirrors tunnel_agent/CFileReciever.cpp:39-56, tunnel_agent/CSaveFileCmd.cpp:57-73 -/
def checkedHead (L : StatLayout) (pkg : List UInt8) : Checked (Option FileHead) := do
  let contentLen ← readSpan pkg 2 4
  let len ← cutLen pkg 6 (pkg.length % 2 ^ 32) 6
  if len < 32 + L.size then .ok none
  else
    let digest ← readSpan pkg 6 32
    let st ← readSpan pkg 38 L.size
    let len ← cutLen pkg (38 + L.size) len (32 + L.size)
    let body ← readSpan pkg (38 + L.size) len
    .ok (some { contentLen := ofLe contentLen, digest := digest, st := st, body := body })

/-- `memchr` and what is taken off for the name; the body is at offset `off`.
mirrors tunnel_agent/CFileReciever.cpp:58-67, tunnel_agent/CSaveFileCmd.cpp:75-84 -/
def checkedName (pkg : List UInt8) (off : Nat) (body : List UInt8) :
    Checked (Option (List UInt8 × List UInt8)) :=
  match splitName body with
  | none => .ok none
  | some (name, _) => do
    let len ← cutLen pkg (off + name.length + 1) body.length (name.length + 1)
    let p ← readSpan pkg (off + name.length + 1) len
    .ok (some (name, p))

namespace CFileReciever

variable (L : StatLayout) (sha : Sha256)

/-- mirrors tunnel_agent/CFileReciever.cpp:37-91 -/
def checkedFirstPkg (pkg : List UInt8) (r : CFileReciever) : Checked (CFileReciever × TState) := do
  match ← checkedHead L pkg with
  | none => .ok (r, .abort)
  | some head =>
    let r := { r with fileSt := head.st, digest := head.digest }
    match ← checkedName pkg (38 + L.size) head.body with
    | none => .ok (r, .abort)
    | some (name, p) =>
      let r := { r with name := name }
      if L.isDir head.st then .ok (r, .finish)
      else
        let r := { r with content := r.content ++ p }
        if head.contentLen ≤ p.length then .ok (r, r.checkDigest sha)
        else .ok ({ r with leftLen := head.contentLen - p.length }, .pending)

/-- mirrors tunnel_agent/CFileReciever.cpp:93-113 -/
def checkedPkg (pkg : List UInt8) (r : CFileReciever) : Checked (CFileReciever × TState) := do
  let len := pkg.length % 2 ^ 32
  let writeLen := if len < r.leftLen then len else r.leftLen
  let p ← readSpan pkg 0 writeLen
  let r := { r with content := r.content ++ p }
  if r.leftLen ≤ len then .ok (r, r.checkDigest sha)
  else .ok ({ r with leftLen := r.leftLen - len }, .pending)

def checkedRun (pkg : List UInt8) (r : CFileReciever) : Checked (CFileReciever × TState) :=
  if r.isFirstPkg then checkedFirstPkg L sha pkg { r with isFirstPkg := false }
  else checkedPkg sha pkg r

end CFileReciever

namespace CSaveFileCmd

variable (L : StatLayout) (sha : Sha256) (host : LocalFs)

/-- mirrors tunnel_agent/CSaveFileCmd.cpp:55-126 -/
def checkedFirstPkg (pkg : List UInt8) (r : CSaveFileCmd) : Checked (CSaveFileCmd × TState) := do
  match ← checkedHead L pkg with
  | none => .ok (r, .abort)
  | some head =>
    let r := { r with digest := head.digest }
    match ← checkedName pkg (38 + L.size) head.body with
    | none => .ok (r, .abort)
    | some (name, p) =>
      let r := { r with name := name }
      if L.isDir head.st then
        if host.mkdirOk name head.st then .ok (r, .finish) else .ok (r, .abort)
      else if host.openOk name head.st then
        let r := { r with written := some [] }
        let w := if p.length ≠ 0 then r.write host p else (r, true)
        if w.2 = false then .ok (w.1, .abort)
        else if head.contentLen ≤ p.length then .ok (w.1, w.1.checkDigest sha)
        else .ok ({ w.1 with leftLen := head.contentLen - p.length }, .pending)
      else .ok (r, .abort)

/-- mirrors tunnel_agent/CSaveFileCmd.cpp:128-153 -/
def checkedPkg (pkg : List UInt8) (r : CSaveFileCmd) : Checked (CSaveFileCmd × TState) := do
  let len := pkg.length % 2 ^ 32
  let writeLen := if len < r.leftLen then len else r.leftLen
  let p ← readSpan pkg 0 writeLen
  let w := r.write host p
  if w.2 = false then .ok (w.1, .abort)
  else if r.leftLen ≤ len then .ok (w.1, w.1.checkDigest sha)
  else .ok ({ w.1 with leftLen := w.1.leftLen - len }, .pending)

def checkedRun (pkg : List UInt8) (r : CSaveFileCmd) : Checked (CSaveFileCmd × TState) := do
  let q ← if r.isFirstPkg then checkedFirstPkg L sha host pkg { r with isFirstPkg := false }
    else checkedPkg sha host pkg r
  match q.2 with
  | .finish => .ok ({ q.1 with said := q.1.said ++ [true] }, q.2)
  | .abort => .ok ({ q.1 with said := q.1.said ++ [false] }, q.2)
  | _ => .ok q

end CSaveFileCmd

/-! ## The head and the name -/

variable {L : StatLayout} {pkg : List UInt8}

theorem checkedHead_short (h : pkg.length < 6) :
    checkedHead L pkg = .error (.read (max 2 pkg.length)) := by
  unfold checkedHead
  rw [readSpan_of_lt (by omega), error_bind]

theorem checkedHead_eq (h : 6 ≤ pkg.length) : checkedHead L pkg = .ok (parseHead L pkg) := by
  have hlen : (2 ^ 32 - 6 + pkg.length) % 2 ^ 32 = (pkg.length - 6) % 2 ^ 32 := by omega
  have hle := Nat.mod_le (pkg.length - 6) (2 ^ 32)
  unfold checkedHead parseHead
  dsimp only
  rw [readSpan_of_le (by omega), ok_bind, cutLen_of_le h (by decide) (by omega), ok_bind, hlen]
  split
  · rfl
  · rename_i hroom
    have hrest : (pkg.length - (38 + L.size)) % 2 ^ 32 =
        (pkg.length - 6) % 2 ^ 32 - (32 + L.size) := by omega
    rw [readSpan_of_le (by omega), ok_bind, readSpan_of_le (by omega), ok_bind,
      cutLen_of_le (by omega) (by omega) (by omega), ok_bind, hrest, readSpan_of_le (by omega),
      ok_bind, List.drop_drop, List.drop_drop, ← Nat.add_assoc]

/-- Where a head is found, the body behind it is what is left of the packet. -/
theorem parseHead_some (h : 6 ≤ pkg.length) {head : FileHead}
    (hhead : parseHead L pkg = some head) : 38 + L.size ≤ pkg.length ∧
      head.body = (pkg.drop (38 + L.size)).take ((pkg.length - (38 + L.size)) % 2 ^ 32) := by
  have hlen : (2 ^ 32 - 6 + pkg.length) % 2 ^ 32 = (pkg.length - 6) % 2 ^ 32 := by omega
  have hle := Nat.mod_le (pkg.length - 6) (2 ^ 32)
  unfold parseHead at hhead
  dsimp only at hhead
  rw [hlen] at hhead
  split at hhead
  · cases hhead
  · have hrest : (pkg.length - (38 + L.size)) % 2 ^ 32 =
        (pkg.length - 6) % 2 ^ 32 - (32 + L.size) := by omega
    refine ⟨by omega, ?_⟩
    rw [← Option.some.inj hhead, hrest]
    dsimp only
    rw [List.drop_drop, ← Nat.add_assoc]

/-- What is behind the name is still in the packet. -/
theorem checkedName_eq {off : Nat} {body : List UInt8} (h : off ≤ pkg.length)
    (hbody : body = (pkg.drop off).take ((pkg.length - off) % 2 ^ 32)) :
    checkedName pkg off body = .ok (splitName body) := by
  have hle := Nat.mod_le (pkg.length - off) (2 ^ 32)
  have hlen : body.length = (pkg.length - off) % 2 ^ 32 := by
    rw [hbody, List.length_take, List.length_drop, Nat.min_eq_left hle]
  unfold checkedName
  cases hsplit : splitName body with
  | none => rfl
  | some q =>
    obtain ⟨k, hk, rfl⟩ := Option.map_eq_some_iff.mp hsplit
    obtain ⟨hlt, -⟩ := List.findIdx?_eq_some_iff_getElem.mp hk
    have hname : (body.take k).length = k := by
      rw [List.length_take, Nat.min_eq_left hlt.le]
    have hrest : (pkg.length - (off + k + 1)) % 2 ^ 32 = (pkg.length - off) % 2 ^ 32 - (k + 1) := by
      omega
    dsimp only
    rw [hname, hlen, cutLen_of_le (by omega) (by omega) (by omega), ok_bind, hrest,
      readSpan_of_le (by omega), ok_bind]
    conv_rhs => rw [hbody, List.drop_take, List.drop_drop, ← hbody]
    rfl

/-! ## Short packets -/

/-- Too short for the file head, or without the NUL of the name behind it. -/
def ShortFile (L : StatLayout) (pkg : List UInt8) : Prop :=
  pkg.length < 38 + L.size ∨ 0 ∉ pkg.drop (38 + L.size)

theorem splitName_of_shortFile (h : 6 ≤ pkg.length) (hshort : ShortFile L pkg) {head : FileHead}
    (hhead : parseHead L pkg = some head) : splitName head.body = none := by
  obtain ⟨hlen, hbody⟩ := parseHead_some h hhead
  have hnone : 0 ∉ pkg.drop (38 + L.size) := hshort.resolve_left (by omega)
  unfold splitName
  rw [Option.map_eq_none_iff, List.findIdx?_eq_none_iff]
  intro b hb
  rw [hbody] at hb
  refine decide_eq_false fun h0 => hnone ?_
  rw [← h0]
  exact List.mem_of_mem_take hb

/-- A step for one packet: what it reads is there exactly if `fits`, a packet that is
too short is refused, and the packet is used up. -/
structure Handles {ρ : Type} (x : Checked (ρ × TState)) (fits short : Prop) : Prop where
  passes : Passes x ↔ fits
  aborts : ∀ r, x = .ok r → short → r.2 = .abort
  used : ∀ r, x = .ok r → r.2 ≠ .next

theorem Handles.of_ok {ρ : Type} {x : Checked (ρ × TState)} {r : ρ × TState} {fits short : Prop}
    (hx : x = .ok r) (hfits : fits) (haborts : short → r.2 = .abort) (hused : r.2 ≠ .next) :
    Handles x fits short where
  passes := iff_of_true ⟨r, hx⟩ hfits
  aborts := by
    intro q hq hshort
    rw [hx] at hq
    cases hq
    exact haborts hshort
  used := by
    intro q hq
    rw [hx] at hq
    cases hq
    exact hused

theorem Handles.of_error {ρ : Type} {x : Checked (ρ × TState)} {f : Fault} {fits short : Prop}
    (hx : x = .error f) (hfits : ¬fits) : Handles x fits short where
  passes := iff_of_false (by rw [hx]; exact not_passes_error f) hfits
  aborts := by
    intro q hq
    rw [hx] at hq
    cases hq
  used := by
    intro q hq
    rw [hx] at hq
    cases hq

/-- A step that reads the head of a command only in a first packet. -/
theorem Handles.of_first {ρ : Type} {x : Checked (ρ × TState)} {r : ρ × TState} {f : Fault}
    {first short : Prop} (hok : (first → 6 ≤ pkg.length) → x = .ok r)
    (herror : pkg.length < 6 → first → x = .error f)
    (haborts : 6 ≤ pkg.length → first → short → r.2 = .abort) (hused : r.2 ≠ .next) :
    Handles x (first → 6 ≤ pkg.length) (first ∧ short) := by
  by_cases hfits : first → 6 ≤ pkg.length
  · exact .of_ok (hok hfits) hfits (fun h => haborts (hfits h.1) h.1 h.2) hused
  · obtain ⟨hfirst, hlen⟩ := Classical.not_imp.mp hfits
    exact .of_error (herror (Nat.not_le.mp hlen) hfirst) hfits

/-! ## The receivers -/

/-- No more is taken of a packet than it has. -/
theorem writeLen_le (left : Nat) (pkg : List UInt8) :
    (if pkg.length % 2 ^ 32 < left then pkg.length % 2 ^ 32 else left) ≤ pkg.length := by
  have hle := Nat.mod_le pkg.length (2 ^ 32)
  split
  · exact hle
  · omega

namespace CFileReciever

variable {sha : Sha256} {r : CFileReciever}

theorem checkedFirstPkg_eq (h : 6 ≤ pkg.length) :
    r.checkedFirstPkg L sha pkg = .ok (r.processFirstPkg L sha pkg) := by
  unfold checkedFirstPkg processFirstPkg
  rw [checkedHead_eq h, ok_bind]
  cases hhead : parseHead L pkg with
  | none => rfl
  | some head =>
    obtain ⟨hoff, hbody⟩ := parseHead_some h hhead
    dsimp only
    rw [checkedName_eq hoff hbody, ok_bind]
    cases splitName head.body with
    | none => rfl
    | some q =>
      dsimp only
      split
      · rfl
      · split
        · rfl
        · rfl

theorem checkedRun_eq (h : r.isFirstPkg = true → 6 ≤ pkg.length) :
    r.checkedRun L sha pkg = .ok (r.run L sha pkg) := by
  unfold checkedRun run
  split
  · rename_i hfirst
    exact checkedFirstPkg_eq (h hfirst)
  · unfold checkedPkg processPkg
    dsimp only
    rw [readSpan_of_le (by rw [Nat.zero_add]; exact writeLen_le _ _), ok_bind, List.drop_zero]
    split
    · rfl
    · rfl

theorem run_ne_next : (r.run L sha pkg).2 ≠ .next := by
  have hdigest : ∀ r : CFileReciever, r.checkDigest sha ≠ .next := by
    intro r
    unfold checkDigest
    split <;> simp
  unfold run processFirstPkg processPkg
  grind

theorem run_short (h : 6 ≤ pkg.length) (hfirst : r.isFirstPkg = true) (hshort : ShortFile L pkg) :
    (r.run L sha pkg).2 = .abort := by
  unfold run processFirstPkg
  rw [if_pos hfirst]
  cases hhead : parseHead L pkg with
  | none => rfl
  | some head =>
    dsimp only
    rw [splitName_of_shortFile h hshort hhead]

theorem checkedRun_short (h : pkg.length < 6) (hfirst : r.isFirstPkg = true) :
    r.checkedRun L sha pkg = .error (.read (max 2 pkg.length)) := by
  unfold checkedRun checkedFirstPkg
  rw [if_pos hfirst, checkedHead_short h, error_bind]

theorem handles_run (r : CFileReciever) (pkg : List UInt8) :
    Handles (r.checkedRun L sha pkg) (r.isFirstPkg = true → 6 ≤ pkg.length)
      (r.isFirstPkg = true ∧ ShortFile L pkg) :=
  .of_first checkedRun_eq checkedRun_short run_short run_ne_next

end CFileReciever

namespace CSaveFileCmd

variable {sha : Sha256} {host : LocalFs} {r : CSaveFileCmd}

theorem checkedFirstPkg_eq (h : 6 ≤ pkg.length) :
    r.checkedFirstPkg L sha host pkg = .ok (r.processFirstPkg L sha host pkg) := by
  unfold checkedFirstPkg processFirstPkg
  rw [checkedHead_eq h, ok_bind]
  cases hhead : parseHead L pkg with
  | none => rfl
  | some head =>
    obtain ⟨hoff, hbody⟩ := parseHead_some h hhead
    dsimp only
    rw [checkedName_eq hoff hbody, ok_bind]
    cases splitName head.body with
    | none => rfl
    | some q =>
      dsimp only
      repeat' split
      all_goals rfl

theorem checkedRun_eq (h : r.isFirstPkg = true → 6 ≤ pkg.length) :
    r.checkedRun L sha host pkg = .ok (r.run L sha host pkg) := by
  have hsaid : ∀ q : CSaveFileCmd × TState, (match q.2 with
      | .finish => .ok ({ q.1 with said := q.1.said ++ [true] }, q.2)
      | .abort => .ok ({ q.1 with said := q.1.said ++ [false] }, q.2)
      | _ => .ok q : Checked (CSaveFileCmd × TState)) = .ok (match q.2 with
      | .finish => ({ q.1 with said := q.1.said ++ [true] }, q.2)
      | .abort => ({ q.1 with said := q.1.said ++ [false] }, q.2)
      | _ => q) := by
    rintro ⟨c, ret⟩
    cases ret <;> rfl
  unfold checkedRun run
  split
  · rename_i hfirst
    rw [checkedFirstPkg_eq (h hfirst), ok_bind]
    exact hsaid _
  · have hpkg : r.checkedPkg sha host pkg = .ok (r.processPkg sha host pkg) := by
      unfold checkedPkg processPkg
      dsimp only
      rw [readSpan_of_le (by rw [Nat.zero_add]; exact writeLen_le _ _), ok_bind, List.drop_zero]
      repeat' split
      all_goals rfl
    rw [hpkg, ok_bind]
    exact hsaid _

theorem run_ne_next : (r.run L sha host pkg).2 ≠ .next := by
  have hdigest : ∀ r : CSaveFileCmd, r.checkDigest sha ≠ .next := by
    intro r
    unfold checkDigest
    split <;> simp
  unfold run processFirstPkg processPkg
  grind

theorem run_short (h : 6 ≤ pkg.length) (hfirst : r.isFirstPkg = true) (hshort : ShortFile L pkg) :
    (r.run L sha host pkg).2 = .abort := by
  unfold run processFirstPkg
  rw [if_pos hfirst]
  cases hhead : parseHead L pkg with
  | none => rfl
  | some head =>
    dsimp only
    rw [splitName_of_shortFile h hshort hhead]

theorem checkedRun_short (h : pkg.length < 6) (hfirst : r.isFirstPkg = true) :
    r.checkedRun L sha host pkg = .error (.read (max 2 pkg.length)) := by
  unfold checkedRun checkedFirstPkg
  rw [if_pos hfirst, checkedHead_short h, error_bind, error_bind]

theorem handles_run (r : CSaveFileCmd) (pkg : List UInt8) :
    Handles (r.checkedRun L sha host pkg) (r.isFirstPkg = true → 6 ≤ pkg.length)
      (r.isFirstPkg = true ∧ ShortFile L pkg) :=
  .of_first checkedRun_eq checkedRun_short run_short run_ne_next

end CSaveFileCmd

end NatFramework.Tunnel
