import Mathlib.Data.UInt
import Mathlib.Data.List.Basic
import NatFramework.Lib.Bytes
import NatFramework.Tunnel.CCrypt

/-!
# File transfer

`CClient::sendFile` and `saveFile` cut a file into packets: a first one with the
command, the digest, the stat and the name, and what a first `read` gives of the
content; then one for every further `read`. `CFileReciever` and `CSaveFileCmd` put
it together again and count down what is left.

* `loopSendRest_flatten`: the further packets are the rest of the file, none empty.
* `feed_chunks`: a receiver that awaits the rest is done with the last of them.
* `file_round_trip`: both ways, the file comes out as it went in.
-/
namespace NatFramework.Tunnel

open Lib

/-! ## CClient -/

/-- What the transfer uses of `struct stat`: its size, `S_ISDIR` and `st_size`. -/
structure StatLayout where
  size : Nat
  isDir : List UInt8 → Bool
  stSize : List UInt8 → Nat

/-- `SHA256`. -/
structure Sha256 where
  digest : List UInt8 → List UInt8
  length_digest : ∀ s, (digest s).length = 32

/-- A file or directory as `fstat` and `read` show it. -/
structure FileEntry (L : StatLayout) where
  st : List UInt8
  content : List UInt8
  length_st : st.length = L.size
  size_eq : L.isDir st = false → L.stSize st = content.length

/-- mirrors tunnel_agent/protocol.h:51-55 -/
def tCommand (cmd type : UInt8) (contentLen : Nat) : List UInt8 :=
  [cmd, type] ++ leBytes 4 contentLen

def cmdSaveFile : UInt8 := 0

/-- A name in quotes loses its first and its last character. -/
def unquote (s : List UInt8) : List UInt8 :=
  if 2 ≤ s.length ∧ (s.head? = some 0x27 ∨ s.head? = some 0x22) then
    (s.drop 1).take (s.length - 2)
  else s

/-- What `read` gives of `rest` bytes when `want` are asked for: none only at the
end of the file. -/
def readLen (want rest c : Nat) : Nat := min (min want rest) (c + 1)

/-- The loop; `c i` stands for what the `i`-th `read` chooses to give. -/
def loopSendRest (c : Nat → Nat) (i : Nat) (rest : List UInt8) : List (List UInt8) :=
  let ret := readLen 1024 rest.length (c i)
  if h : 0 < ret then rest.take ret :: loopSendRest c (i + 1) (rest.drop ret) else []
termination_by rest.length
decreasing_by
  have hret : 0 < readLen 1024 rest.length (c i) := h
  unfold readLen at hret
  rw [List.length_drop]
  omega

/-- The first `read` asks for `sizeof(BLOCK_SIZE)`, which is the size of an `int`.
mirrors tunnel_agent/CClient.cpp:277-298 -/
def loopSendFile (c : Nat → Nat) (data content : List UInt8) : List (List UInt8) :=
  let ret := readLen 4 content.length (c 0)
  (data ++ content.take ret) :: loopSendRest c 1 (content.drop ret)

section Send

variable (L : StatLayout) (sha : Sha256) (c : Nat → Nat)

/-- The packets of an opened file or directory. -/
def filePackets (cmd type : UInt8) (name : List UInt8) (f : FileEntry L) : List (List UInt8) :=
  let data := tCommand cmd type (L.stSize f.st)
  if L.isDir f.st then [data ++ List.replicate 32 0 ++ f.st ++ name ++ [0]]
  else loopSendFile c (data ++ sha.digest f.content ++ f.st ++ name ++ [0]) f.content

/-- mirrors tunnel_agent/CClient.cpp:437-479 -/
def sendFile (fs : List UInt8 → Option (FileEntry L)) (file name : List UInt8) (cmd type : UInt8) :
    Option (List (List UInt8)) :=
  (fs (unquote file)).map (filePackets L sha c cmd type name)

/-- mirrors tunnel_agent/CClient.cpp:300-341 -/
def saveFile (fs : List UInt8 → Option (FileEntry L)) (file dst : List UInt8) :
    Option (List (List UInt8)) :=
  (fs (unquote file)).map (filePackets L sha c cmdSaveFile 0 (unquote dst))

end Send

/-! ## The receivers -/

/-- mirrors tunnel_agent/protocol.h:79-84 -/
inductive TState where
  | pending
  | next
  | abort
  | finish
deriving DecidableEq, Repr

/-- The head of a first packet, and what follows it. -/
structure FileHead where
  contentLen : Nat
  digest : List UInt8
  st : List UInt8
  body : List UInt8

/-- `tCommand` and `tFileHead`; `none`: the packet is too short for them. -/
def parseHead (L : StatLayout) (pkg : List UInt8) : Option FileHead :=
  let len := (2 ^ 32 - 6 + pkg.length) % 2 ^ 32
  let p := pkg.drop 6
  if len < 32 + L.size then none
  else
    some
      { contentLen := ofLe ((pkg.drop 2).take 4)
        digest := p.take 32
        st := (p.drop 32).take L.size
        body := (p.drop (32 + L.size)).take (len - (32 + L.size)) }

/-- The name up to its NUL, and what follows it; `none`: there is no NUL. -/
def splitName (body : List UInt8) : Option (List UInt8 × List UInt8) :=
  (body.findIdx? (· = 0)).map fun k => (body.take k, body.drop (k + 1))

/-- mirrors tunnel_agent/CFileReciever.h:47-56 -/
structure CFileReciever where
  isFirstPkg : Bool := true
  leftLen : Nat := 0
  name : List UInt8 := []
  content : List UInt8 := []
  fileSt : List UInt8 := []
  digest : List UInt8 := []

namespace CFileReciever

variable (L : StatLayout) (sha : Sha256)

/-- mirrors tunnel_agent/CFileReciever.cpp:113-119 -/
def checkDigest (r : CFileReciever) : TState :=
  if sha.digest r.content = r.digest then .finish else .abort

/-- mirrors tunnel_agent/CFileReciever.cpp:37-89 -/
def processFirstPkg (pkg : List UInt8) (r : CFileReciever) : CFileReciever × TState :=
  match parseHead L pkg with
  | none => (r, .abort)
  | some head =>
    let r := { r with fileSt := head.st, digest := head.digest }
    match splitName head.body with
    | none => (r, .abort)
    | some (name, p) =>
      let r := { r with name := name }
      if L.isDir head.st then (r, .finish)
      else
        let r := { r with content := r.content ++ p }
        if head.contentLen ≤ p.length then (r, r.checkDigest sha)
        else ({ r with leftLen := head.contentLen - p.length }, .pending)

/-- mirrors tunnel_agent/CFileReciever.cpp:91-111 -/
def processPkg (pkg : List UInt8) (r : CFileReciever) : CFileReciever × TState :=
  let len := pkg.length % 2 ^ 32
  let writeLen := if len < r.leftLen then len else r.leftLen
  let r := { r with content := r.content ++ pkg.take writeLen }
  if r.leftLen ≤ len then (r, r.checkDigest sha)
  else ({ r with leftLen := r.leftLen - len }, .pending)

/-- mirrors tunnel_agent/CFileReciever.cpp:26-35 -/
def run (pkg : List UInt8) (r : CFileReciever) : CFileReciever × TState :=
  if r.isFirstPkg then processFirstPkg L sha pkg { r with isFirstPkg := false }
  else processPkg sha pkg r

end CFileReciever

/-- What the host's calls of `open`, `mkdir` and `write` do: whether the first two
succeed, and how many bytes a `write` takes. -/
structure LocalFs where
  openOk : List UInt8 → List UInt8 → Bool
  mkdirOk : List UInt8 → List UInt8 → Bool
  writeRet : List UInt8 → Nat

/-- `written` is the file behind `fd_`, `said` what `sayFinish` has told the client.
mirrors tunnel_agent/CSaveFileCmd.h:39-45 -/
structure CSaveFileCmd where
  isFirstPkg : Bool := true
  leftLen : Nat := 0
  name : List UInt8 := []
  digest : List UInt8 := []
  written : Option (List UInt8) := none
  said : List Bool := []

namespace CSaveFileCmd

variable (L : StatLayout) (sha : Sha256) (host : LocalFs)

/-- mirrors tunnel_agent/CSaveFileCmd.cpp:154-162 -/
def checkDigest (r : CSaveFileCmd) : TState :=
  if sha.digest (r.written.getD []) = r.digest then .finish else .abort

/-- One `write` to the file, and whether it took all. -/
def write (bs : List UInt8) (r : CSaveFileCmd) : CSaveFileCmd × Bool :=
  let ret := host.writeRet bs
  ({ r with written := r.written.map (· ++ bs.take ret) }, ret = bs.length)

/-- mirrors tunnel_agent/CSaveFileCmd.cpp:56-125 -/
def processFirstPkg (pkg : List UInt8) (r : CSaveFileCmd) : CSaveFileCmd × TState :=
  match parseHead L pkg with
  | none => (r, .abort)
  | some head =>
    let r := { r with digest := head.digest }
    match splitName head.body with
    | none => (r, .abort)
    | some (name, p) =>
      let r := { r with name := name }
      if L.isDir head.st then
        if host.mkdirOk name head.st then (r, .finish) else (r, .abort)
      else if host.openOk name head.st then
        let r := { r with written := some [] }
        let w := if p.length ≠ 0 then r.write host p else (r, true)
        if w.2 = false then (w.1, .abort)
        else if head.contentLen ≤ p.length then (w.1, w.1.checkDigest sha)
        else ({ w.1 with leftLen := head.contentLen - p.length }, .pending)
      else (r, .abort)

/-- mirrors tunnel_agent/CSaveFileCmd.cpp:127-152 -/
def processPkg (pkg : List UInt8) (r : CSaveFileCmd) : CSaveFileCmd × TState :=
  let len := pkg.length % 2 ^ 32
  let writeLen := if len < r.leftLen then len else r.leftLen
  let w := r.write host (pkg.take writeLen)
  if w.2 = false then (w.1, .abort)
  else if r.leftLen ≤ len then (w.1, w.1.checkDigest sha)
  else ({ w.1 with leftLen := w.1.leftLen - len }, .pending)

/-- mirrors tunnel_agent/CSaveFileCmd.cpp:35-54 -/
def run (pkg : List UInt8) (r : CSaveFileCmd) : CSaveFileCmd × TState :=
  let q :=
    if r.isFirstPkg then processFirstPkg L sha host pkg { r with isFirstPkg := false }
    else processPkg sha host pkg r
  match q.2 with
  | .finish => ({ q.1 with said := q.1.said ++ [true] }, q.2)
  | .abort => ({ q.1 with said := q.1.said ++ [false] }, q.2)
  | _ => q

end CSaveFileCmd

/-! ## What is sent -/

theorem loopSendRest_flatten (c : Nat → Nat) (i : Nat) (rest : List UInt8) :
    (loopSendRest c i rest).flatten = rest ∧
      ∀ p ∈ loopSendRest c i rest, p ≠ [] ∧ p.length ≤ 1024 := by
  fun_induction loopSendRest c i rest with
  | case1 i rest ret hret ih =>
    have hle : ret ≤ 1024 ∧ ret ≤ rest.length := by
      simp only [ret, readLen]
      omega
    refine ⟨by rw [List.flatten_cons, ih.1, List.take_append_drop], ?_⟩
    intro p hp
    rcases List.mem_cons.mp hp with rfl | hp
    · refine ⟨fun hnil => ?_, by rw [List.length_take]; omega⟩
      have hlen := congrArg List.length hnil
      rw [List.length_take, List.length_nil] at hlen
      omega
    · exact ih.2 p hp
  | case2 i rest ret hret =>
    have hrest : rest.length = 0 := by
      simp only [ret, readLen] at hret
      omega
    rw [List.eq_nil_of_length_eq_zero hrest]
    exact ⟨rfl, fun p hp => absurd hp List.not_mem_nil⟩

theorem length_tCommand (cmd type : UInt8) (n : Nat) : (tCommand cmd type n).length = 6 := by
  simp [tCommand]

/-- The head is read as it was put together. -/
theorem parseHead_packet {L : StatLayout} {cmd type : UInt8} {n : Nat}
    {digest st body : List UInt8} (hn : n < 2 ^ 32) (hd : digest.length = 32)
    (hst : st.length = L.size)
    (hlen : (tCommand cmd type n ++ digest ++ st ++ body).length < 2 ^ 32) :
    parseHead L (tCommand cmd type n ++ digest ++ st ++ body) = some ⟨n, digest, st, body⟩ := by
  have hcmd := length_tCommand cmd type n
  have htotal : (tCommand cmd type n ++ digest ++ st ++ body).length =
      6 + (32 + L.size) + body.length := by
    simp only [List.length_append, hcmd, hd, hst]
    omega
  have hcount : (2 ^ 32 - 6 + (tCommand cmd type n ++ digest ++ st ++ body).length) % 2 ^ 32 =
      32 + L.size + body.length := by
    omega
  have hcontent : ((tCommand cmd type n ++ digest ++ st ++ body).drop 2).take 4 = leBytes 4 n := by
    simp only [tCommand, List.append_assoc, List.cons_append, List.nil_append, List.drop_succ_cons,
      List.drop_zero]
    exact List.take_left' (length_leBytes 4 n)
  have hdrop : (tCommand cmd type n ++ digest ++ st ++ body).drop 6 = digest ++ (st ++ body) := by
    simp only [List.append_assoc]
    exact List.drop_left' hcmd
  have hbody : (digest ++ (st ++ body)).drop (32 + L.size) = body := by
    rw [← List.append_assoc]
    exact List.drop_left' (by rw [List.length_append, hd, hst])
  unfold parseHead
  dsimp only
  rw [hcount, if_neg (by omega), hcontent, hdrop, hbody, List.drop_left' hd, List.take_left' hst,
    List.take_left' hd, ofLe_leBytes_of_lt (by omega), List.take_of_length_le (by omega)]

theorem splitName_append {name rest : List UInt8} (hname : 0 ∉ name) :
    splitName (name ++ 0 :: rest) = some (name, rest) := by
  have hfind : (name ++ 0 :: rest).findIdx? (· = 0) = some name.length := by
    rw [List.findIdx?_append, List.findIdx?_eq_none_iff.mpr]
    · simp [List.findIdx?_cons]
    · intro x hx
      have hne : x ≠ 0 := fun h => hname (h ▸ hx)
      simpa using hne
  unfold splitName
  rw [hfind, Option.map_some, List.take_left' rfl, ← List.drop_drop, List.drop_left' rfl]
  rfl

/-! ## A receiver and the packets -/

variable {ρ : Type}

/-- The packets one by one, with what `run` returns for each. -/
def feed (run : List UInt8 → ρ → ρ × TState) : ρ → List (List UInt8) → ρ × List TState
  | r, [] => (r, [])
  | r, p :: ps => ((feed run (run p r).1 ps).1, (run p r).2 :: (feed run (run p r).1 ps).2)

/-- `awaits r got rest`: with `got` behind it the receiver awaits `rest`; `done r got`:
it has finished with `got`. -/
structure Assembles (run : List UInt8 → ρ → ρ × TState)
    (awaits : ρ → List UInt8 → List UInt8 → Prop) (done : ρ → List UInt8 → Prop) : Prop where
  more : ∀ r got chunk rest, awaits r got (chunk ++ rest) → rest ≠ [] →
    (run chunk r).2 = .pending ∧ awaits (run chunk r).1 (got ++ chunk) rest
  last : ∀ r got chunk, awaits r got chunk →
    (run chunk r).2 = .finish ∧ done (run chunk r).1 (got ++ chunk)

/-- A receiver that awaits the chunks is done with the last, and with no other. -/
theorem feed_chunks {run : List UInt8 → ρ → ρ × TState}
    {awaits : ρ → List UInt8 → List UInt8 → Prop} {done : ρ → List UInt8 → Prop}
    (h : Assembles run awaits done) {chunks : List (List UInt8)} (hne : ∀ p ∈ chunks, p ≠ []) {r : ρ}
    {got p : List UInt8} (hr : awaits r got (p ++ chunks.flatten)) :
    (feed run r (p :: chunks)).2 = List.replicate chunks.length .pending ++ [.finish] ∧
      done (feed run r (p :: chunks)).1 (got ++ p ++ chunks.flatten) := by
  induction chunks generalizing r got p with
  | nil =>
    rw [List.flatten_nil, List.append_nil] at hr
    obtain ⟨hres, hdone⟩ := h.last r got p hr
    simp only [feed, hres, List.flatten_nil, List.append_nil]
    exact ⟨rfl, hdone⟩
  | cons q chunks ih =>
    have hrest : (q :: chunks).flatten ≠ [] := by
      have hq := hne q List.mem_cons_self
      simp [hq]
    obtain ⟨hres, hawaits⟩ := h.more r got p _ hr hrest
    obtain ⟨hresults, hdone⟩ := ih (fun x hx => hne x (List.mem_cons_of_mem q hx)) hawaits
    rw [feed, hres, hresults, List.flatten_cons, ← List.append_assoc]
    exact ⟨rfl, hdone⟩

/-- The same behind a first packet that is not a chunk. -/
theorem feed_first {run : List UInt8 → ρ → ρ × TState}
    {awaits : ρ → List UInt8 → List UInt8 → Prop} {done : ρ → List UInt8 → Prop}
    (h : Assembles run awaits done) {chunks : List (List UInt8)} (hne : ∀ p ∈ chunks, p ≠ []) {r : ρ}
    {got first : List UInt8}
    (hmore : chunks.flatten ≠ [] →
      (run first r).2 = .pending ∧ awaits (run first r).1 got chunks.flatten)
    (hlast : chunks.flatten = [] → (run first r).2 = .finish ∧ done (run first r).1 got) :
    (feed run r (first :: chunks)).2 = List.replicate chunks.length .pending ++ [.finish] ∧
      done (feed run r (first :: chunks)).1 (got ++ chunks.flatten) := by
  cases chunks with
  | nil =>
    obtain ⟨hres, hdone⟩ := hlast rfl
    simp only [feed, hres, List.flatten_nil, List.append_nil]
    exact ⟨rfl, hdone⟩
  | cons p chunks =>
    have hrest : (p :: chunks).flatten ≠ [] := by
      have hp := hne p List.mem_cons_self
      simp [hp]
    obtain ⟨hres, hawaits⟩ := hmore hrest
    obtain ⟨hresults, hdone⟩ :=
      feed_chunks h (fun x hx => hne x (List.mem_cons_of_mem p hx)) hawaits
    rw [feed, hres, hresults, List.flatten_cons, ← List.append_assoc]
    exact ⟨rfl, hdone⟩

/-! ## Both receivers -/

section Receivers

variable {L : StatLayout} {sha : Sha256} {name st : List UInt8}

/-- What has come and what is still to come of a file. -/
structure CFileReciever.Awaits (sha : Sha256) (name st : List UInt8) (r : CFileReciever)
    (got rest : List UInt8) : Prop where
  isFirstPkg : r.isFirstPkg = false
  leftLen : r.leftLen = rest.length
  lt : rest.length < 2 ^ 32
  content : r.content = got
  digest : r.digest = sha.digest (got ++ rest)
  name : r.name = name
  fileSt : r.fileSt = st

structure CFileReciever.Done (name st : List UInt8) (r : CFileReciever) (got : List UInt8) : Prop where
  content : r.content = got
  name : r.name = name
  fileSt : r.fileSt = st

theorem CFileReciever.assembles :
    Assembles (CFileReciever.run L sha) (CFileReciever.Awaits sha name st)
      (CFileReciever.Done name st) where
  more r got chunk rest h hrest := by
    have hleft := h.leftLen
    have hlt := h.lt
    have hpos := List.length_pos_iff.mpr hrest
    rw [List.length_append] at hleft hlt
    have hmod : chunk.length % 2 ^ 32 = chunk.length := Nat.mod_eq_of_lt (by omega)
    have hshort : chunk.length < r.leftLen := by omega
    unfold run
    rw [h.isFirstPkg, if_neg Bool.false_ne_true]
    unfold processPkg
    dsimp only
    rw [hmod, if_pos hshort, if_neg (Nat.not_le_of_lt hshort), List.take_length]
    exact
      ⟨rfl,
        { isFirstPkg := h.isFirstPkg
          leftLen := by dsimp only; omega
          lt := by omega
          content := by rw [h.content]
          digest := by rw [h.digest, List.append_assoc]
          name := h.name
          fileSt := h.fileSt }⟩
  last r got chunk h := by
    have hleft := h.leftLen
    have hmod : chunk.length % 2 ^ 32 = chunk.length := Nat.mod_eq_of_lt h.lt
    unfold run
    rw [h.isFirstPkg, if_neg Bool.false_ne_true]
    unfold processPkg checkDigest
    dsimp only
    rw [hmod, hleft, if_neg (Nat.lt_irrefl _), if_pos (Nat.le_refl _), List.take_length, h.content,
      h.digest, if_pos rfl]
    exact ⟨rfl, rfl, h.name, h.fileSt⟩

structure CSaveFileCmd.Awaits (sha : Sha256) (name : List UInt8) (r : CSaveFileCmd)
    (got rest : List UInt8) : Prop where
  isFirstPkg : r.isFirstPkg = false
  leftLen : r.leftLen = rest.length
  lt : rest.length < 2 ^ 32
  written : r.written = some got
  digest : r.digest = sha.digest (got ++ rest)
  name : r.name = name
  said : r.said = []

structure CSaveFileCmd.Done (name : List UInt8) (r : CSaveFileCmd) (got : List UInt8) : Prop where
  written : r.written = some got
  name : r.name = name
  said : r.said = [true]

theorem CSaveFileCmd.write_all {host : LocalFs} (hw : ∀ bs, host.writeRet bs = bs.length)
    (bs : List UInt8) (r : CSaveFileCmd) :
    r.write host bs = ({ r with written := r.written.map (· ++ bs) }, true) := by
  unfold write
  dsimp only
  rw [hw, List.take_length, decide_eq_true rfl]

theorem CSaveFileCmd.assembles {host : LocalFs} (hw : ∀ bs, host.writeRet bs = bs.length) :
    Assembles (CSaveFileCmd.run L sha host) (CSaveFileCmd.Awaits sha name)
      (CSaveFileCmd.Done name) where
  more r got chunk rest h hrest := by
    have hleft := h.leftLen
    have hlt := h.lt
    have hpos := List.length_pos_iff.mpr hrest
    rw [List.length_append] at hleft hlt
    have hmod : chunk.length % 2 ^ 32 = chunk.length := Nat.mod_eq_of_lt (by omega)
    have hshort : chunk.length < r.leftLen := by omega
    have hpkg : r.processPkg sha host chunk =
        ({ r with written := some (got ++ chunk), leftLen := rest.length }, .pending) := by
      unfold processPkg
      dsimp only
      rw [hmod, if_pos hshort, List.take_length, write_all hw, h.written]
      dsimp only [Option.map_some]
      rw [if_neg (by decide), if_neg (Nat.not_le_of_lt hshort), hleft, Nat.add_sub_cancel_left]
    unfold run
    dsimp only
    rw [h.isFirstPkg, if_neg Bool.false_ne_true, hpkg]
    exact
      ⟨rfl,
        { isFirstPkg := h.isFirstPkg
          leftLen := rfl
          lt := by omega
          written := rfl
          digest := by rw [h.digest, List.append_assoc]
          name := h.name
          said := h.said }⟩
  last r got chunk h := by
    have hleft := h.leftLen
    have hmod : chunk.length % 2 ^ 32 = chunk.length := Nat.mod_eq_of_lt h.lt
    have hpkg : r.processPkg sha host chunk =
        ({ r with written := some (got ++ chunk) }, .finish) := by
      unfold processPkg checkDigest
      dsimp only
      rw [hmod, if_neg (Nat.not_lt_of_le (Nat.le_of_eq hleft)), hleft, List.take_length,
        write_all hw, h.written]
      dsimp only [Option.map_some, Option.getD_some]
      rw [if_neg (by decide), if_pos (Nat.le_refl _), h.digest, if_pos rfl, hleft]
    unfold run
    dsimp only
    rw [h.isFirstPkg, if_neg Bool.false_ne_true, hpkg]
    exact ⟨rfl, rfl, h.name, by rw [h.said]; rfl⟩

/-! ### The first packet -/

/-- What the first packet of a regular file carries behind its head. -/
theorem filePackets_regular (sha : Sha256) (c : Nat → Nat) (cmd type : UInt8) (name : List UInt8)
    {f : FileEntry L} (hreg : L.isDir f.st = false) :
    ∃ n chunks, filePackets L sha c cmd type name f =
        (tCommand cmd type f.content.length ++ sha.digest f.content ++ f.st ++
          (name ++ 0 :: f.content.take n)) :: chunks ∧
      chunks.flatten = f.content.drop n ∧ ∀ p ∈ chunks, p ≠ [] := by
  obtain ⟨hflatten, hne⟩ := loopSendRest_flatten c 1
    (f.content.drop (readLen 4 f.content.length (c 0)))
  refine ⟨_, _, ?_, hflatten, fun p hp => (hne p hp).1⟩
  unfold filePackets loopSendFile
  rw [hreg, f.size_eq hreg]
  simp only [Bool.false_eq_true, if_false, List.append_assoc, List.cons_append, List.nil_append]

/-- A packet that `CWaiter::read_cb` takes: `tMetaHead.len` is at most `MAX_DATA_LEN`. -/
def Delivered (p : List UInt8) : Prop := (Des.padded p).length ≤ 100 * 1024 * 1024

theorem Delivered.lt {p : List UInt8} (h : Delivered p) : p.length + 1 < 2 ^ 32 := by
  unfold Delivered at h
  rw [Des.length_padded] at h
  omega

theorem map_desDecrypt (d : Des) {pkgs : List (List UInt8)} (h : ∀ p ∈ pkgs, Delivered p) :
    pkgs.map (fun p => d.desDecrypt (d.desEncrypt p)) = pkgs := by
  have hsame := List.map_congr_left fun p hp => d.desDecrypt_desEncrypt p (h p hp).lt
  rw [hsame, List.map_id']

/-- The head of a delivered first packet, as both receivers read it. -/
theorem parse_first {cmd type : UInt8} {f : FileEntry L} {n : Nat}
    (hsize : f.content.length < 2 ^ 32) (hname : 0 ∉ name)
    (hdel : Delivered (tCommand cmd type f.content.length ++ sha.digest f.content ++ f.st ++
      (name ++ 0 :: f.content.take n))) :
    parseHead L (tCommand cmd type f.content.length ++ sha.digest f.content ++ f.st ++
        (name ++ 0 :: f.content.take n)) =
      some ⟨f.content.length, sha.digest f.content, f.st, name ++ 0 :: f.content.take n⟩ ∧
    splitName (name ++ 0 :: f.content.take n) = some (name, f.content.take n) := by
  have hlt := hdel.lt
  exact ⟨parseHead_packet hsize (sha.length_digest _) f.length_st (by omega),
    splitName_append hname⟩

/-- The packets of a regular file, fed to a new `CFileReciever`. -/
theorem CFileReciever.feed_filePackets {c : Nat → Nat} {cmd type : UInt8} {f : FileEntry L}
    (hreg : L.isDir f.st = false) (hsize : f.content.length < 2 ^ 32) (hname : 0 ∉ name)
    (hdel : ∀ p ∈ filePackets L sha c cmd type name f, Delivered p) :
    let pkgs := filePackets L sha c cmd type name f
    (feed (CFileReciever.run L sha) {} pkgs).2 =
        List.replicate (pkgs.length - 1) .pending ++ [.finish] ∧
      CFileReciever.Done name f.st (feed (CFileReciever.run L sha) {} pkgs).1 f.content := by
  obtain ⟨n, chunks, hpkgs, hflatten, hne⟩ := filePackets_regular sha c cmd type name hreg
  rw [hpkgs] at hdel ⊢
  obtain ⟨hparse, hsplit⟩ := parse_first hsize hname (hdel _ List.mem_cons_self)
  have hcontent : f.content = f.content.take n ++ chunks.flatten := by
    rw [hflatten, List.take_append_drop]
  have hlen := congrArg List.length hcontent
  rw [List.length_append] at hlen
  dsimp only
  rw [List.length_cons, Nat.add_sub_cancel]
  suffices h : (feed (CFileReciever.run L sha) {} (_ :: chunks)).2 = _ ∧
      CFileReciever.Done name f.st (feed (CFileReciever.run L sha) {} (_ :: chunks)).1
        (f.content.take n ++ chunks.flatten) by
    rwa [← hcontent] at h
  refine feed_first CFileReciever.assembles hne ?_ ?_
  · intro hrest
    have hpos := List.length_pos_iff.mpr hrest
    simp only [run, processFirstPkg, hparse, hsplit, hreg, if_true, Bool.false_eq_true, if_false,
      List.nil_append]
    rw [if_neg (by omega)]
    exact
      ⟨rfl,
        { isFirstPkg := rfl
          leftLen := by dsimp only; omega
          lt := by omega
          content := rfl
          digest := by rw [← hcontent]
          name := rfl
          fileSt := rfl }⟩
  · intro hrest
    have hzero := congrArg List.length hrest
    rw [List.length_nil] at hzero
    rw [hrest, List.append_nil] at hcontent
    simp only [run, processFirstPkg, hparse, hsplit, hreg, if_true, Bool.false_eq_true, if_false,
      List.nil_append, checkDigest]
    rw [if_pos (by omega), if_pos (by rw [← hcontent])]
    exact ⟨rfl, rfl, rfl, rfl⟩

/-- With local calls that succeed, the first packet leaves its content in the file. -/
theorem CSaveFileCmd.processFirstPkg_eq {host : LocalFs} {head : FileHead} {pkg p : List UInt8}
    (hparse : parseHead L pkg = some head) (hsplit : splitName head.body = some (name, p))
    (hreg : L.isDir head.st = false) (hopen : host.openOk name head.st = true)
    (hw : ∀ bs, host.writeRet bs = bs.length) (r : CSaveFileCmd) :
    r.processFirstPkg L sha host pkg =
      let w := { r with digest := head.digest, name := name, written := some p }
      if head.contentLen ≤ p.length then (w, CSaveFileCmd.checkDigest sha w)
      else ({ w with leftLen := head.contentLen - p.length }, .pending) := by
  have hwritten : ∀ r : CSaveFileCmd,
      (if p.length ≠ 0 then CSaveFileCmd.write host p { r with written := some [] }
        else ({ r with written := some [] }, true)) = ({ r with written := some p }, true) := by
    intro r
    split
    · rw [CSaveFileCmd.write_all hw]
      rfl
    · rename_i hnil
      rw [List.eq_nil_of_length_eq_zero (Decidable.not_not.mp hnil)]
  unfold processFirstPkg
  rw [hparse]
  dsimp only
  rw [hsplit]
  dsimp only
  rw [hreg, if_neg Bool.false_ne_true, if_pos hopen,
    hwritten { r with digest := head.digest, name := name }]
  rfl

/-- The same with a `CSaveFileCmd` whose local calls succeed. -/
theorem CSaveFileCmd.feed_filePackets {host : LocalFs} {c : Nat → Nat} {cmd type : UInt8}
    {f : FileEntry L} (hopen : host.openOk name f.st = true)
    (hw : ∀ bs, host.writeRet bs = bs.length) (hreg : L.isDir f.st = false)
    (hsize : f.content.length < 2 ^ 32) (hname : 0 ∉ name)
    (hdel : ∀ p ∈ filePackets L sha c cmd type name f, Delivered p) :
    let pkgs := filePackets L sha c cmd type name f
    (feed (CSaveFileCmd.run L sha host) {} pkgs).2 =
        List.replicate (pkgs.length - 1) .pending ++ [.finish] ∧
      CSaveFileCmd.Done name (feed (CSaveFileCmd.run L sha host) {} pkgs).1 f.content := by
  obtain ⟨n, chunks, hpkgs, hflatten, hne⟩ := filePackets_regular sha c cmd type name hreg
  rw [hpkgs] at hdel ⊢
  obtain ⟨hparse, hsplit⟩ := parse_first hsize hname (hdel _ List.mem_cons_self)
  have hcontent : f.content = f.content.take n ++ chunks.flatten := by
    rw [hflatten, List.take_append_drop]
  have hlen := congrArg List.length hcontent
  rw [List.length_append] at hlen
  have hrun : ∀ r, CSaveFileCmd.processFirstPkg L sha host _ r = _ :=
    CSaveFileCmd.processFirstPkg_eq hparse hsplit hreg hopen hw
  dsimp only at hrun
  dsimp only
  rw [List.length_cons, Nat.add_sub_cancel]
  suffices h : (feed (CSaveFileCmd.run L sha host) {} (_ :: chunks)).2 = _ ∧
      CSaveFileCmd.Done name (feed (CSaveFileCmd.run L sha host) {} (_ :: chunks)).1
        (f.content.take n ++ chunks.flatten) by
    rwa [← hcontent] at h
  refine feed_first (CSaveFileCmd.assembles hw) hne ?_ ?_
  · intro hrest
    have hpos := List.length_pos_iff.mpr hrest
    unfold run
    rw [if_pos rfl, hrun, if_neg (by omega)]
    exact
      ⟨rfl,
        { isFirstPkg := rfl
          leftLen := by dsimp only; omega
          lt := by omega
          written := rfl
          digest := by rw [← hcontent]
          name := rfl
          said := rfl }⟩
  · intro hrest
    have hzero := congrArg List.length hrest
    rw [List.length_nil] at hzero
    rw [hrest, List.append_nil] at hcontent
    unfold run
    rw [if_pos rfl, hrun, if_pos (by omega)]
    unfold checkDigest
    dsimp only [Option.getD_some]
    rw [if_pos (by rw [← hcontent])]
    exact ⟨rfl, rfl, rfl, rfl⟩

end Receivers

/-- What is sent comes out of the receiver on the last packet and not before. -/
theorem file_round_trip (L : StatLayout) (sha : Sha256) (d : Des) (c : Nat → Nat)
    (fs : List UInt8 → Option (FileEntry L)) (file name : List UInt8) (f : FileEntry L)
    (hf : fs (unquote file) = some f) (hreg : L.isDir f.st = false)
    (hsize : f.content.length < 2 ^ 32) (hname : 0 ∉ name) :
    (∀ cmd type, ∃ pkgs, sendFile L sha c fs file name cmd type = some pkgs ∧
      ((∀ p ∈ pkgs, Delivered p) →
        let r := feed (CFileReciever.run L sha) {}
          (pkgs.map fun p => d.desDecrypt (d.desEncrypt p))
        r.2 = List.replicate (pkgs.length - 1) .pending ++ [.finish] ∧
          r.1.name = name ∧ r.1.content = f.content ∧ r.1.fileSt = f.st)) ∧
      ∀ host : LocalFs, host.openOk (unquote name) f.st = true →
        (∀ bs, host.writeRet bs = bs.length) →
        ∃ pkgs, saveFile L sha c fs file name = some pkgs ∧
          ((∀ p ∈ pkgs, Delivered p) →
            let r := feed (CSaveFileCmd.run L sha host) {}
              (pkgs.map fun p => d.desDecrypt (d.desEncrypt p))
            r.2 = List.replicate (pkgs.length - 1) .pending ++ [.finish] ∧
              r.1.name = unquote name ∧ r.1.written = some f.content ∧ r.1.said = [true]) := by
  constructor
  · intro cmd type
    refine ⟨_, by rw [sendFile, hf, Option.map_some], fun hdel => ?_⟩
    rw [map_desDecrypt d hdel]
    obtain ⟨hres, hdone⟩ := CFileReciever.feed_filePackets hreg hsize hname hdel
    exact ⟨hres, hdone.name, hdone.content, hdone.fileSt⟩
  · intro host hopen hw
    have hname' : 0 ∉ unquote name := by
      unfold unquote
      split
      · exact fun h => hname (List.mem_of_mem_drop (List.mem_of_mem_take h))
      · exact hname
    refine ⟨_, by rw [saveFile, hf, Option.map_some], fun hdel => ?_⟩
    rw [map_desDecrypt d hdel]
    obtain ⟨hres, hdone⟩ := CSaveFileCmd.feed_filePackets hopen hw hreg hsize hname' hdel
    exact ⟨hres, hdone.name, hdone.written, hdone.said⟩

/-! ### Six bytes in three packets -/

/-- A stat of one byte: 0xff for a directory, else the size. -/
def byteStat : StatLayout where
  size := 1
  isDir st := decide (st.head? = some 0xff)
  stSize st := (st.headD 0).toNat

def byteSum : Sha256 where
  digest s := List.replicate 31 0 ++ [s.sum]
  length_digest s := by simp

def sixBytes : FileEntry byteStat where
  st := [6]
  content := [1, 2, 3, 4, 5, 6]
  length_st := rfl
  size_eq _ := rfl

/-- The packets it is sent in, two bytes a `read`. -/
def sixPackets (name : List UInt8) : List (List UInt8) :=
  [tCommand 0 0 6 ++ byteSum.digest [1, 2, 3, 4, 5, 6] ++ [6] ++ name ++ [0] ++ [1, 2],
    [3, 4], [5, 6]]

theorem filePackets_sixBytes (name : List UInt8) :
    filePackets byteStat byteSum (fun _ => 1) 0 0 name sixBytes = sixPackets name := by
  have hrest : loopSendRest (fun _ => 1) 1 [3, 4, 5, 6] = [[3, 4], [5, 6]] := by
    simp [loopSendRest, readLen]
  have hpackets : filePackets byteStat byteSum (fun _ => 1) 0 0 name sixBytes =
      (tCommand 0 0 6 ++ byteSum.digest [1, 2, 3, 4, 5, 6] ++ [6] ++ name ++ [0] ++ [1, 2]) ::
        loopSendRest (fun _ => 1) 1 [3, 4, 5, 6] := rfl
  rw [hpackets, hrest]
  rfl

theorem file_round_trip_sixBytes :
    (∃ pkgs, sendFile byteStat byteSum (fun _ => 1) (fun _ => some sixBytes) [97] [98] 0 0 = some pkgs ∧
      (feed (CFileReciever.run byteStat byteSum) {}
        (pkgs.map fun p => reversed.desDecrypt (reversed.desEncrypt p))).2 =
          [.pending, .pending, .finish]) ∧
      ∃ pkgs, saveFile byteStat byteSum (fun _ => 1) (fun _ => some sixBytes) [97] [98] = some pkgs ∧
        (feed (CSaveFileCmd.run byteStat byteSum ⟨fun _ _ => true, fun _ _ => true, List.length⟩) {}
          (pkgs.map fun p => reversed.desDecrypt (reversed.desEncrypt p))).1.written =
            some [1, 2, 3, 4, 5, 6] := by
  have hround := file_round_trip byteStat byteSum reversed (fun _ => 1) (fun _ => some sixBytes)
    [97] [98] sixBytes rfl rfl (by decide) (by decide)
  have hdel : ∀ p ∈ sixPackets [98], Delivered p := by
    unfold Delivered sixPackets
    decide
  obtain ⟨pkgs, hsend, hrun⟩ := hround.1 0 0
  obtain ⟨saved, hsave, hwrite⟩ := hround.2 ⟨fun _ _ => true, fun _ _ => true, List.length⟩ rfl
    fun _ => rfl
  have hpkgs : sixPackets [98] = pkgs := by
    rw [← filePackets_sixBytes]
    exact Option.some.inj hsend
  have hsaved : sixPackets [98] = saved := by
    rw [← filePackets_sixBytes]
    exact Option.some.inj hsave
  subst hpkgs hsaved
  exact ⟨⟨_, hsend, (hrun hdel).1⟩, ⟨_, hsave, (hwrite hdel).2.2.1⟩⟩

end NatFramework.Tunnel
