import NatFramework.Tunnel.DoCommand
import NatFramework.Tunnel.FileTree

/-!
# Directories

`CClient::sendDir` goes through a directory with a list of paths that are still to be
opened, and sends each file and each directory under its name; `CDirReciever` makes a
directory and puts under it what comes.

* `DirWork.checkedRun_eq`: the receiver of `DoCommand`, with a tree behind its calls.
* `Listing`: what is in a directory, and in those that are in it.
* `feed_item`, `sendEntries_spec`: what is sent of one directory, and what it makes.
* `dir_round_trip`: the directory comes out as it went in, and nothing else.
-/
namespace NatFramework.Tunnel

open Lib Checked

/-! ## CClient -/

/-- What `readdir` gives: `d_name`, and whether `d_type` has `DT_DIR`. -/
structure Dirent where
  name : List UInt8
  isDir : Bool

/-- The files of the client. -/
structure LocalTree (L : StatLayout) where
  opendir : List UInt8 → Option (List Dirent)
  openFile : List UInt8 → Option (FileEntry L)

/-- `.` and `..` -/
def dots : List (List UInt8) := [[0x2e], [0x2e, 0x2e]]

section Send

variable (L : StatLayout) (sha : Sha256) (c : List UInt8 → Nat → Nat) (fs : LocalTree L)
  (localdir : List UInt8) (cmd type : UInt8)

/-- The packets of the entries, and `pathlist`, whose last is first here; `c name` is how
`read` takes the file `name` apart.
mirrors tunnel_agent/CClient.cpp:510-517 -/
def sendEntries (path : List UInt8) :
    List Dirent → List (List UInt8) → Option (List (List UInt8) × List (List UInt8))
  | [], pathlist => some ([], pathlist)
  | e :: es, pathlist =>
    if e.name ∈ dots then sendEntries path es pathlist
    else
      let name := path ++ slash :: e.name
      match sendFile L sha (c name) fs.openFile (localdir ++ name) name cmd type with
      | none => none
      | some pkgs =>
        (sendEntries path es (if e.isDir then name :: pathlist else pathlist)).map fun r =>
          (pkgs ++ r.1, r.2)

/-- mirrors tunnel_agent/CClient.cpp:498-519 -/
def sendPaths : Nat → List (List UInt8) → Option (List (List UInt8))
  | 0, _ => none
  | _ + 1, [] => some []
  | fuel + 1, path :: pathlist =>
    match fs.opendir (localdir ++ path) with
    | none => none
    | some es =>
      match sendEntries L sha c fs localdir cmd type path es pathlist with
      | none => none
      | some (pkgs, pathlist) => (sendPaths fuel pathlist).map (pkgs ++ ·)

/-- `none`: it has not come to its end.
mirrors tunnel_agent/CClient.cpp:486-524 -/
def sendDir (fuel : Nat) (remotedir : List UInt8) : Option (List (List UInt8)) :=
  let head := tCommand cmd type 0 ++ remotedir
  if remotedir = [] then some [head]
  else (sendPaths L sha c fs localdir cmd type fuel [[slash]]).map fun pkgs =>
    head :: pkgs ++ [tCommand cmdFinish type 0]

end Send

/-! ## CDirReciever -/

/-- `$TMP/` -/
def tmpVar : List UInt8 := [0x24, 0x54, 0x4d, 0x50, 0x2f]

/-- `.tmp/` -/
def tmpDir : List UInt8 := [0x2e, 0x74, 0x6d, 0x70, 0x2f]

def endSlash (p : List UInt8) : List UInt8 := if p.getLast? = some slash then p else p ++ [slash]

/-- What `makedir` makes of the name.
mirrors tunnel_agent/CDirReciever.cpp:50-64 -/
def expand (baseDir dirname : List UInt8) : List UInt8 :=
  let dirname := endSlash dirname
  if tmpVar <+: dirname then endSlash baseDir ++ tmpDir ++ dirname.drop tmpVar.length else dirname

/-- mirrors tunnel_agent/CDirReciever.cpp:68-95 -/
def writeFile (L : StatLayout) (t : FileTree) (name st content : List UInt8) : Option FileTree :=
  if L.isDir st then t.mkdir (components name) (some st)
  else t.openWrite (components name) st content

/-- A `CDirReciever`, and the tree it works on.
mirrors tunnel_agent/CDirReciever.h:39-42 -/
structure DirWork where
  tree : FileTree
  isFirstPkg : Bool := true
  dirname : List UInt8 := []
  fileReciever : Option CFileReciever := none

namespace DirWork

variable (L : StatLayout) (sha : Sha256) (baseDir : List UInt8)

/-- mirrors tunnel_agent/CDirReciever.cpp:109-125 -/
def fileRun (r : CFileReciever) (pkg : List UInt8) (w : DirWork) : DirWork × TState :=
  let r := r.run L sha pkg
  match r.2 with
  | .finish =>
    match writeFile L w.tree (w.dirname ++ r.1.name) r.1.fileSt r.1.content with
    | none => ({ w with fileReciever := some r.1 }, .abort)
    | some tree => ({ w with tree := tree, fileReciever := none }, .pending)
  | .pending => ({ w with fileReciever := some r.1 }, .pending)
  | _ => ({ w with fileReciever := some r.1 }, .abort)

/-- mirrors tunnel_agent/CDirReciever.cpp:97-109 -/
def processPkg (pkg : List UInt8) (w : DirWork) : DirWork × TState :=
  match w.fileReciever with
  | some r => w.fileRun L sha r pkg
  | none =>
    if pkg.length < 6 then (w, .abort)
    else if pkg.head? = some cmdFinish then (w, .finish)
    else w.fileRun L sha {} pkg

/-- mirrors tunnel_agent/CDirReciever.cpp:30-46 -/
def run (pkg : List UInt8) (w : DirWork) : DirWork × TState :=
  if w.isFirstPkg then
    let w := { w with isFirstPkg := false, dirname := pkg.drop 6 }
    if w.dirname = [] then (w, .finish)
    else
      let w := { w with dirname := expand baseDir w.dirname }
      match w.tree.createDirTree w.dirname with
      | none => (w, .abort)
      | some tree => ({ w with tree := tree }, .pending)
  else w.processPkg L sha pkg

end DirWork

namespace DirWork

variable {L : StatLayout} {sha : Sha256} {baseDir pkg : List UInt8} {host : Host} {w : DirWork}

def recv (w : DirWork) : CDirReciever := ⟨w.isFirstPkg, w.dirname, w.fileReciever⟩

/-- A host whose directories are those of a tree. -/
def hostOf (L : StatLayout) (baseDir : List UInt8) (host : Host) (t : FileTree) : Host :=
  { host with
    makedir := fun name => (t.createDirTree (expand baseDir name)).map fun _ => expand baseDir name
    writeFile := fun dir r => (writeFile L t (dir ++ r.name) r.fileSt r.content).isSome }

/-- The receiver does what the checked one does with the answers of the tree. -/
structure Agrees (x : Checked (CDirReciever × TState)) (y : DirWork × TState) : Prop where
  run : ∃ d, x = .ok (d, y.2) ∧ (y.2 ≠ .abort → d = y.1.recv)

theorem fileRun_agrees {r : CFileReciever} (hfit : r.isFirstPkg = true → 6 ≤ pkg.length) :
    Agrees (w.recv.fileRun L sha (hostOf L baseDir host w.tree) r pkg) (w.fileRun L sha r pkg) := by
  unfold CDirReciever.fileRun stage fileRun
  rw [CFileReciever.checkedRun_eq hfit, ok_bind]
  dsimp only
  cases hst : (r.run L sha pkg).2 with
  | finish =>
    rw [if_pos rfl]
    dsimp only [hostOf, recv]
    rcases Option.eq_none_or_eq_some (writeFile L w.tree (w.dirname ++ (r.run L sha pkg).1.name)
      (r.run L sha pkg).1.fileSt (r.run L sha pkg).1.content) with hnone | ⟨tree, hsome⟩
    · simp only [hnone, Option.isSome_none, Bool.false_eq_true, if_false]
      exact ⟨_, rfl, fun h => absurd rfl h⟩
    · simp only [hsome, Option.isSome_some, if_true]
      exact ⟨_, rfl, fun _ => rfl⟩
  | pending => exact ⟨_, rfl, fun _ => rfl⟩
  | abort => exact ⟨_, rfl, fun h => absurd rfl h⟩
  | next => exact absurd hst CFileReciever.run_ne_next

theorem checkedRun_eq (hfirst : w.isFirstPkg = true → 6 ≤ pkg.length)
    (hfile : ∀ r ∈ w.fileReciever, r.isFirstPkg = true → 6 ≤ pkg.length) :
    Agrees (w.recv.checkedRun L sha (hostOf L baseDir host w.tree) pkg) (w.run L sha baseDir pkg) := by
  unfold CDirReciever.checkedRun run
  by_cases hw : w.isFirstPkg = true
  · rw [if_pos hw, if_pos (show w.recv.isFirstPkg = true from hw), readTail_of_le (hfirst hw),
      ok_bind]
    dsimp only
    by_cases hnil : pkg.drop 6 = []
    · rw [if_pos hnil, if_pos (by rw [hnil]; rfl)]
      exact ⟨_, rfl, fun _ => rfl⟩
    · rw [if_neg hnil, if_neg (mt List.eq_nil_of_length_eq_zero hnil)]
      dsimp only [hostOf]
      cases w.tree.createDirTree (expand baseDir (pkg.drop 6)) with
      | none => exact ⟨_, rfl, fun h => absurd rfl h⟩
      | some tree => exact ⟨_, rfl, fun _ => rfl⟩
  · rw [if_neg hw, if_neg (show ¬w.recv.isFirstPkg = true from hw)]
    unfold CDirReciever.checkedPkg processPkg
    cases hr : w.fileReciever with
    | some r =>
      rw [show w.recv.fileReciever = some r from hr]
      exact fileRun_agrees (hfile r hr)
    | none =>
      rw [show w.recv.fileReciever = none from hr]
      dsimp only
      by_cases hlen : pkg.length < 6
      · rw [if_pos hlen, if_pos hlen]
        exact ⟨_, rfl, fun h => absurd rfl h⟩
      · have hhead : pkg.head? = some cmdFinish ↔ pkg.getD 0 0 = cmdFinish := by
          cases pkg with
          | nil => exact absurd (Nat.zero_lt_succ 5) hlen
          | cons b p => exact Option.some.injEq b cmdFinish ▸ Iff.rfl
        rw [if_neg hlen, if_neg hlen, readByte_of_lt (by omega), ok_bind]
        by_cases hend : pkg.getD 0 0 = cmdFinish
        · rw [if_pos hend, if_pos (hhead.mpr hend)]
          exact ⟨_, rfl, fun _ => rfl⟩
        · rw [if_neg hend, if_neg (mt hhead.mp hend)]
          exact fileRun_agrees fun _ => Nat.le_of_not_lt hlen

end DirWork

/-! ## What is in a directory -/

/-- An entry is a file, or a directory with what is in it; each has its stat. -/
inductive Listing (L : StatLayout) where
  | nil
  | file (name : List UInt8) (f : FileEntry L) (rest : Listing L)
  | dir (name : List UInt8) (f : FileEntry L) (sub rest : Listing L)

namespace Listing

variable {L : StatLayout}

/-- The entries, and for a directory what is in it. -/
def items : Listing L → List (List UInt8 × FileEntry L × Option (Listing L))
  | nil => []
  | file name f rest => (name, f, none) :: rest.items
  | dir name f sub rest => (name, f, some sub) :: rest.items

def names (l : Listing L) : List (List UInt8) := l.items.map fun i => i.1

/-- How many directories there are, this one among them. -/
def dirs : Listing L → Nat
  | nil => 1
  | file _ _ rest => rest.dirs
  | dir _ _ sub rest => sub.dirs + rest.dirs

/-- What stands under a name: a file, or a directory. -/
def nodeOf (f : FileEntry L) : Option (Listing L) → Node
  | none => .file f.st f.content
  | some _ => .dir (some f.st)

/-- What there is at a path. -/
def lookup : Listing L → List (List UInt8) → Option Node
  | nil, _ => none
  | _, [] => none
  | file name f rest, x :: q =>
    if x = name then if q = [] then some (.file f.st f.content) else none else rest.lookup (x :: q)
  | dir name f sub rest, x :: q =>
    if x = name then if q = [] then some (.dir (some f.st)) else sub.lookup q else rest.lookup (x :: q)

/-- A name that a directory may have in it. -/
def NameOk (name : List UInt8) : Prop := name ≠ [] ∧ slash ∉ name ∧ 0 ∉ name ∧ name ∉ dots

/-- The stats are right, no name is there twice, and sizes fit `content_len`. -/
def Valid : Listing L → Prop
  | nil => True
  | file name f rest => NameOk name ∧ name ∉ rest.names ∧ L.isDir f.st = false ∧
      f.content.length < 2 ^ 32 ∧ rest.Valid
  | dir name f sub rest => NameOk name ∧ name ∉ rest.names ∧ L.isDir f.st = true ∧ sub.Valid ∧ rest.Valid

/-- `readdir` shows the entries, in this order, with `.` and `..` anywhere. -/
def Opens (fs : LocalTree L) (p : List UInt8) (l : Listing L) : Prop :=
  ∃ es, fs.opendir p = some es ∧
    es.filter (fun e => e.name ∉ dots) = l.items.map fun i => ⟨i.1, i.2.2.isSome⟩

/-- The client has the listing at `p`. -/
def Shows (fs : LocalTree L) (p : List UInt8) : Listing L → Prop
  | nil => True
  | file name f rest => fs.openFile (p ++ slash :: name) = some f ∧ rest.Shows fs p
  | dir name f sub rest => fs.openFile (p ++ slash :: name) = some f ∧
      sub.Opens fs (p ++ slash :: name) ∧ sub.Shows fs (p ++ slash :: name) ∧ rest.Shows fs p

end Listing

/-! ## The packets of one entry -/

section Feed

variable {L : StatLayout} {sha : Sha256}

theorem feed_append {ρ : Type} (run : List UInt8 → ρ → ρ × TState) (r : ρ) (ps qs : List (List UInt8)) :
    feed run r (ps ++ qs) =
      ((feed run (feed run r ps).1 qs).1, (feed run r ps).2 ++ (feed run (feed run r ps).1 qs).2) := by
  induction ps generalizing r with
  | nil => rfl
  | cons p ps ih => rw [List.cons_append, feed, ih]; rfl

/-- The size in the head of a packet is cut to 32 bits. -/
theorem tCommand_mod (cmd type : UInt8) (n : Nat) : tCommand cmd type n = tCommand cmd type (n % 256 ^ 4) := by
  rw [tCommand, tCommand, leBytes_mod]

/-- The packet of a directory, read by a new receiver. -/
theorem CFileReciever.run_dir {cmd type : UInt8} {n : Nat} {name st : List UInt8} (hdir : L.isDir st = true)
    (hst : st.length = L.size) (hname : 0 ∉ name)
    (hdel : Delivered (tCommand cmd type n ++ List.replicate 32 0 ++ st ++ name ++ [0])) :
    ∃ r, CFileReciever.run L sha (tCommand cmd type n ++ List.replicate 32 0 ++ st ++ name ++ [0]) {} =
        (r, .finish) ∧ r.name = name ∧ r.fileSt = st := by
  have hlt := hdel.lt
  rw [tCommand_mod, List.append_assoc (_ ++ st)] at hlt ⊢
  have hparse : parseHead L
      (tCommand cmd type (n % 256 ^ 4) ++ List.replicate 32 0 ++ st ++ (name ++ [0])) =
        some ⟨n % 256 ^ 4, List.replicate 32 0, st, name ++ [0]⟩ :=
    parseHead_packet (by omega) (by simp) hst (by omega)
  have hsplit : splitName (name ++ [0]) = some (name, []) := splitName_append hname
  have hrun : CFileReciever.run L sha
      (tCommand cmd type (n % 256 ^ 4) ++ List.replicate 32 0 ++ st ++ (name ++ [0])) {} =
      ({ isFirstPkg := false, fileSt := st, digest := List.replicate 32 0, name := name }, .finish) := by
    unfold CFileReciever.run
    rw [if_pos rfl]
    unfold CFileReciever.processFirstPkg
    rw [hparse]
    dsimp only
    rw [hsplit]
    dsimp only
    rw [if_pos hdir]
  exact ⟨_, hrun, rfl, rfl⟩

namespace DirWork

variable {w : DirWork} {baseDir : List UInt8}

/-- The packets of a file are handed to its receiver; the last of them writes it. -/
theorem feed_file {r r' : CFileReciever} {n : Nat} {pkgs : List (List UInt8)} {tree : FileTree}
    (hfirst : w.isFirstPkg = false) (hr : w.fileReciever = some r)
    (hfeed : feed (CFileReciever.run L sha) r pkgs = (r', List.replicate n .pending ++ [.finish]))
    (hwrite : writeFile L w.tree (w.dirname ++ r'.name) r'.fileSt r'.content = some tree) :
    feed (DirWork.run L sha baseDir) w pkgs =
      ({ w with tree := tree, fileReciever := none }, List.replicate (n + 1) .pending) := by
  have hrun : ∀ p, w.run L sha baseDir p = w.fileRun L sha r p := by
    intro p
    rw [DirWork.run, hfirst, if_neg Bool.false_ne_true, processPkg, hr]
  induction n generalizing w r pkgs with
  | zero =>
    cases pkgs with
    | nil => cases congrArg Prod.snd hfeed
    | cons p ps =>
      simp only [feed, Prod.mk.injEq, List.replicate_zero, List.nil_append, List.cons.injEq] at hfeed
      obtain ⟨hr', hfinish, hps⟩ := hfeed
      cases ps with
      | cons q qs => cases hps
      | nil =>
        change (r.run L sha p).1 = r' at hr'
        simp only [feed, hrun, fileRun, hfinish, hr', hwrite]
        rfl
  | succ n ih =>
    cases pkgs with
    | nil => cases congrArg Prod.snd hfeed
    | cons p ps =>
      simp only [feed, Prod.mk.injEq, List.replicate_succ, List.cons_append, List.cons.injEq] at hfeed
      obtain ⟨hr', hpending, hps⟩ := hfeed
      have hnext : w.run L sha baseDir p = ({ w with fileReciever := some (r.run L sha p).1 }, .pending) := by
        simp only [hrun, fileRun, hpending]
      have hrest := ih (w := { w with fileReciever := some (r.run L sha p).1 }) hfirst rfl
        (Prod.ext hr' hps) hwrite ?_
      · rw [feed, hnext, hrest]
        rfl
      · intro q
        rw [DirWork.run, hfirst, if_neg Bool.false_ne_true, processPkg]

/-- A receiver is made for a packet that is no command to finish. -/
theorem feed_new {p : List UInt8} {ps : List (List UInt8)} (hfirst : w.isFirstPkg = false)
    (hr : w.fileReciever = none) (hlen : 6 ≤ p.length) (hcmd : p.head? ≠ some cmdFinish) :
    feed (DirWork.run L sha baseDir) w (p :: ps) =
      feed (DirWork.run L sha baseDir) { w with fileReciever := some {} } (p :: ps) := by
  obtain ⟨tree, isFirstPkg, dirname, fileReciever⟩ := w
  obtain rfl : isFirstPkg = false := hfirst
  obtain rfl : fileReciever = none := hr
  have hrun : DirWork.run L sha baseDir p ⟨tree, false, dirname, none⟩ =
      DirWork.run L sha baseDir p ⟨tree, false, dirname, some {}⟩ := by
    simp only [DirWork.run, processPkg, Bool.false_eq_true, if_false]
    rw [if_neg (Nat.not_lt.mpr hlen), if_neg hcmd]
    rfl
  rw [feed, feed, hrun]

end DirWork

open Listing

/-- A name that may be sent, with the stat of what it is. -/
structure ItemOk (name : List UInt8) (f : FileEntry L) (sub : Option (Listing L)) : Prop where
  name : NameOk name
  isDir : L.isDir f.st = sub.isSome
  size : sub = none → f.content.length < 2 ^ 32

/-- What `writeFile` does in a directory that has no such name. -/
theorem writeFile_new {t : FileTree} {c : List (List UInt8)} {path x : List UInt8} {f : FileEntry L}
    {sub : Option (Listing L)} (hf : L.isDir f.st = sub.isSome) (hpath : components path = c ++ [x])
    (hdir : t.isDir c = true) (hnone : t.node (c ++ [x]) = none) {content : List UInt8}
    (hcontent : sub = none → content = f.content) :
    ∃ t', writeFile L t path f.st content = some t' ∧
      t'.node = Function.update t.node (c ++ [x]) (some (nodeOf f sub)) := by
  have hfree : c ++ [x] ≠ [] ∧ t.isDir (c ++ [x]).dropLast = true ∧ t.isDir (c ++ [x]) = false :=
    ⟨by simp, by rw [List.dropLast_concat]; exact hdir, by rw [FileTree.isDir, hnone]; rfl⟩
  unfold writeFile
  rw [hf, hpath]
  cases sub with
  | some l =>
    have hmkdir : c ++ [x] ≠ [] ∧ t.isDir (c ++ [x]).dropLast = true ∧ t.isDir (c ++ [x]) = false ∧
        (t.node (c ++ [x])).isNone = true := ⟨hfree.1, hfree.2.1, hfree.2.2, by rw [hnone]; rfl⟩
    rw [Option.isSome_some, if_pos rfl, FileTree.mkdir, dif_pos hmkdir]
    exact ⟨_, rfl, rfl⟩
  | none =>
    rw [Option.isSome_none, if_neg Bool.false_ne_true, FileTree.openWrite, dif_pos hfree]
    refine ⟨_, rfl, ?_⟩
    rw [hcontent rfl, FileTree.put]
    dsimp only
    rw [hnone]
    rfl

/-- A packet that begins with its command. -/
theorem tCommand_head {cmd type : UInt8} {n : Nat} {p rest : List UInt8} (hcmd : cmd ≠ cmdFinish)
    (hp : p = tCommand cmd type n ++ rest) : 6 ≤ p.length ∧ p.head? ≠ some cmdFinish := by
  subst hp
  refine ⟨?_, fun h => hcmd (Option.some.inj h)⟩
  rw [List.length_append, length_tCommand]
  exact Nat.le_add_right _ _

/-- The packets of a file or a directory, fed to a new receiver. -/
theorem feed_packets {c : Nat → Nat} {cmd type : UInt8} {name : List UInt8} {f : FileEntry L}
    {sub : Option (Listing L)} (hcmd : cmd ≠ cmdFinish) (hisDir : L.isDir f.st = sub.isSome)
    (hsize : sub = none → f.content.length < 2 ^ 32) (hname : 0 ∉ name)
    (hdel : ∀ p ∈ filePackets L sha c cmd type name f, Delivered p) :
    ∃ p ps r, filePackets L sha c cmd type name f = p :: ps ∧ (6 ≤ p.length ∧ p.head? ≠ some cmdFinish) ∧
      feed (CFileReciever.run L sha) {} (p :: ps) = (r, List.replicate ps.length .pending ++ [.finish]) ∧
      r.name = name ∧ r.fileSt = f.st ∧ (sub = none → r.content = f.content) := by
  cases sub with
  | some l =>
    have hpkgs : filePackets L sha c cmd type name f =
        [tCommand cmd type (L.stSize f.st) ++ List.replicate 32 0 ++ f.st ++ name ++ [0]] := by
      rw [filePackets, hisDir]
      rfl
    rw [hpkgs] at hdel
    obtain ⟨r, hrun, hrname, hrst⟩ : ∃ r, CFileReciever.run L sha _ {} = (r, .finish) ∧ r.name = name ∧
        r.fileSt = f.st := CFileReciever.run_dir hisDir f.length_st hname (hdel _ List.mem_cons_self)
    refine ⟨_, [], r, hpkgs, tCommand_head hcmd (by simp only [List.append_assoc]; rfl), ?_, hrname, hrst, nofun⟩
    simp only [feed, hrun]
    rfl
  | none =>
    obtain ⟨n, chunks, hpkgs, -, -⟩ := filePackets_regular sha c cmd type name hisDir
    obtain ⟨hres, hdone⟩ := CFileReciever.feed_filePackets hisDir (hsize rfl) hname hdel
    rw [hpkgs] at hres hdone
    exact ⟨_, chunks, _, hpkgs, tCommand_head hcmd (by simp only [List.append_assoc]; rfl), Prod.ext rfl hres,
      hdone.name, hdone.fileSt, fun _ => hdone.content⟩

/-- **One entry**: its packets make its node, and nothing else. -/
theorem feed_item (baseDir : List UInt8) {w : DirWork} {c : Nat → Nat} {cmd type : UInt8} {path x : List UInt8}
    {f : FileEntry L} {sub : Option (Listing L)} (hcmd : cmd ≠ cmdFinish) (hok : ItemOk x f sub)
    (hpath : 0 ∉ path) (hfirst : w.isFirstPkg = false) (hr : w.fileReciever = none)
    (hdir : w.tree.isDir (components (w.dirname ++ path)) = true)
    (hnone : w.tree.node (components (w.dirname ++ path) ++ [x]) = none)
    (hdel : ∀ p ∈ filePackets L sha c cmd type (path ++ slash :: x) f, Delivered p) :
    ∃ tree, feed (DirWork.run L sha baseDir) w (filePackets L sha c cmd type (path ++ slash :: x) f) =
        ({ w with tree := tree },
          List.replicate (filePackets L sha c cmd type (path ++ slash :: x) f).length .pending) ∧
      tree.node = Function.update w.tree.node (components (w.dirname ++ path) ++ [x])
        (some (nodeOf f sub)) := by
  obtain ⟨⟨hne, hslash, hzero, -⟩, hisDir, hsize⟩ := hok
  have hname : 0 ∉ path ++ slash :: x := by
    simp only [List.mem_append, List.mem_cons, not_or]
    exact ⟨hpath, by decide, hzero⟩
  have hsplit : components (w.dirname ++ (path ++ slash :: x)) = components (w.dirname ++ path) ++ [x] := by
    rw [← List.append_assoc, components_append_slash, components_name hne hslash]
  obtain ⟨p, ps, r, hpkgs, ⟨hlen, hhead⟩, hfeed, hrname, hrst, hrcontent⟩ :=
    feed_packets hcmd hisDir hsize hname hdel
  obtain ⟨tree, hwrite, hnode⟩ := writeFile_new hisDir hsplit hdir hnone hrcontent
  refine ⟨tree, ?_, hnode⟩
  have hfile : feed (DirWork.run L sha baseDir) { w with fileReciever := some {} } (p :: ps) = _ :=
    DirWork.feed_file hfirst rfl hfeed (by rw [hrname, hrst]; exact hwrite)
  rw [hpkgs, DirWork.feed_new hfirst hr hlen hhead, hfile, hr]
  rfl

/-! ## The entries of one directory -/

/-- A client's name that is no name in quotes. -/
def Bare (p : List UInt8) : Prop := p.head? ≠ some 0x27 ∧ p.head? ≠ some 0x22

theorem unquote_append {p q : List UInt8} (hp : Bare p) (hq : q.head? = some slash) :
    unquote (p ++ q) = p ++ q := by
  refine if_neg fun h => ?_
  cases p with
  | nil =>
    rw [List.nil_append, hq] at h
    exact absurd h.2 (by decide)
  | cons b p =>
    rcases h.2 with h | h
    · exact hp.1 h
    · exact hp.2 h

variable {c : List UInt8 → Nat → Nat} {fs : LocalTree L} {localdir : List UInt8} {cmd type : UInt8}

theorem sendEntries_filter (path : List UInt8) (es : List Dirent) (pathlist : List (List UInt8)) :
    sendEntries L sha c fs localdir cmd type path es pathlist =
      sendEntries L sha c fs localdir cmd type path (es.filter fun e => e.name ∉ dots) pathlist := by
  induction es generalizing pathlist with
  | nil => rfl
  | cons e es ih =>
    by_cases he : e.name ∈ dots
    · rw [List.filter_cons_of_neg (by simpa using he), sendEntries, if_pos he, ih]
    · rw [List.filter_cons_of_pos (by simpa using he), sendEntries, sendEntries, if_neg he, if_neg he]
      simp only [ih]

/-- The paths that are still to be opened, with what is there. -/
def stackOf (path : List UInt8) :
    List (List UInt8 × FileEntry L × Option (Listing L)) → List (List UInt8 × Listing L) →
      List (List UInt8 × Listing L)
  | [], acc => acc
  | (x, _, sub) :: its, acc => stackOf path its (sub.toList.map (fun l => (path ++ slash :: x, l)) ++ acc)

/-- Between two files: the receiver waits for the first packet of one. -/
structure DirWork.Open (w : DirWork) : Prop where
  isFirstPkg : w.isFirstPkg = false
  fileReciever : w.fileReciever = none

/-- Where the receiver puts what is sent of `path`. -/
def DirWork.place (w : DirWork) (path : List UInt8) : List (List UInt8) := components (w.dirname ++ path)

/-- The entries make their nodes under `path`, and nothing else. -/
structure Made (w : DirWork) (path : List UInt8)
    (its : List (List UInt8 × FileEntry L × Option (Listing L))) (tree : FileTree) : Prop where
  made : ∀ i ∈ its, tree.node (w.place path ++ [i.1]) = some (nodeOf i.2.1 i.2.2)
  same : ∀ q, (∀ i ∈ its, q ≠ w.place path ++ [i.1]) → tree.node q = w.tree.node q

/-- **One directory**: the packets of its entries make the nodes of the entries. -/
theorem sendEntries_spec (baseDir : List UInt8) {path : List UInt8}
    {its : List (List UInt8 × FileEntry L × Option (Listing L))} (acc : List (List UInt8 × Listing L))
    (hcmd : cmd ≠ cmdFinish) (hbare : Bare localdir)
    (hits : ∀ i ∈ its, ItemOk i.1 i.2.1 i.2.2 ∧ fs.openFile (localdir ++ (path ++ slash :: i.1)) = some i.2.1)
    (hnodup : (its.map fun i => i.1).Nodup) (hpath : path.head? = some slash) (hzero : 0 ∉ path) :
    ∃ pkgs, sendEntries L sha c fs localdir cmd type path (its.map fun i => ⟨i.1, i.2.2.isSome⟩)
          (acc.map Prod.fst) = some (pkgs, (stackOf path its acc).map Prod.fst) ∧
      ((∀ p ∈ pkgs, Delivered p) → ∀ w : DirWork, w.Open → w.tree.isDir (w.place path) = true →
        (∀ i ∈ its, w.tree.node (w.place path ++ [i.1]) = none) →
        ∃ tree, feed (DirWork.run L sha baseDir) w pkgs =
          ({ w with tree := tree }, List.replicate pkgs.length .pending) ∧ Made w path its tree) := by
  induction its generalizing acc with
  | nil => exact ⟨[], rfl, fun _ w _ _ _ => ⟨w.tree, rfl, nofun, fun q _ => rfl⟩⟩
  | cons i its ih =>
    obtain ⟨x, f, sub⟩ := i
    obtain ⟨hok, hopen⟩ := hits _ List.mem_cons_self
    obtain ⟨hx, hnodup⟩ := List.nodup_cons.mp hnodup
    have hsend : sendFile L sha (c (path ++ slash :: x)) fs.openFile (localdir ++ (path ++ slash :: x))
        (path ++ slash :: x) cmd type =
          some (filePackets L sha (c (path ++ slash :: x)) cmd type (path ++ slash :: x) f) := by
      have hhead : (path ++ slash :: x).head? = some slash := by
        rw [List.head?_append, hpath]
        rfl
      rw [sendFile, unquote_append hbare hhead, hopen, Option.map_some]
    obtain ⟨pkgs, hpkgs, hfeed⟩ := ih (sub.toList.map (fun l => (path ++ slash :: x, l)) ++ acc)
      (fun i hi => hits i (List.mem_cons_of_mem _ hi)) hnodup
    refine ⟨filePackets L sha (c (path ++ slash :: x)) cmd type (path ++ slash :: x) f ++ pkgs, ?_, ?_⟩
    · have hpush : (if sub.isSome = true then (path ++ slash :: x) :: acc.map Prod.fst else acc.map Prod.fst) =
          (sub.toList.map (fun l => (path ++ slash :: x, l)) ++ acc).map Prod.fst := by
        cases sub <;> rfl
      rw [List.map_cons, sendEntries, if_neg hok.name.2.2.2]
      dsimp only
      rw [hsend, hpush, hpkgs]
      rfl
    · intro hdel w hw hdir hnone
      obtain ⟨tree, hone, hnode⟩ := feed_item baseDir hcmd hok hzero hw.isFirstPkg hw.fileReciever hdir
        (hnone _ List.mem_cons_self) fun p hp => hdel p (List.mem_append_left _ hp)
      change tree.node = Function.update w.tree.node (w.place path ++ [x]) (some (nodeOf f sub)) at hnode
      have hself : ∀ q, q ≠ w.place path ++ [x] → tree.node q = w.tree.node q := by
        intro q hq
        rw [hnode, Function.update_of_ne hq]
      have hothers : ∀ i ∈ its, w.place path ++ [i.1] ≠ w.place path ++ [x] := by
        rintro i hi heq
        have hix : i.1 = x := by simpa using heq
        exact hx (List.mem_map.mpr ⟨i, hi, hix⟩)
      have hdir' : tree.isDir (w.place path) = true := by
        rw [FileTree.isDir, hself _ (by simp)]
        exact hdir
      obtain ⟨tree', hrest, hmade⟩ := hfeed (fun p hp => hdel p (List.mem_append_right _ hp))
        { w with tree := tree } ⟨hw.isFirstPkg, hw.fileReciever⟩ hdir' fun i hi =>
          (hself _ (hothers i hi)).trans (hnone i (List.mem_cons_of_mem _ hi))
      refine ⟨tree', ?_, ?_, ?_⟩
      · rw [feed_append, hone]
        dsimp only
        rw [hrest, List.length_append, List.replicate_append_replicate]
      · intro i hi
        rcases List.mem_cons.mp hi with rfl | hi
        · refine (hmade.same _ fun i hi heq => hothers i hi heq.symm).trans ?_
          dsimp only
          rw [hnode, Function.update_self]
        · exact hmade.made i hi
      · intro q hq
        exact (hmade.same q fun i hi => hq i (List.mem_cons_of_mem _ hi)).trans
          (hself q (hq _ List.mem_cons_self))

/-! ## What is said of a listing, entry by entry -/

theorem Listing.Valid.items {l : Listing L} (h : l.Valid) :
    l.names.Nodup ∧ ∀ i ∈ l.items, ItemOk i.1 i.2.1 i.2.2 ∧ ∀ sub ∈ i.2.2, Valid sub := by
  induction l with
  | nil => exact ⟨List.nodup_nil, nofun⟩
  | file name f rest ih =>
    obtain ⟨hok, hnew, hreg, hsize, hrest⟩ := h
    obtain ⟨hnodup, hitems⟩ := ih hrest
    refine ⟨List.nodup_cons.mpr ⟨hnew, hnodup⟩, fun i hi => ?_⟩
    rcases List.mem_cons.mp hi with rfl | hi
    · exact ⟨⟨hok, hreg, fun _ => hsize⟩, nofun⟩
    · exact hitems i hi
  | dir name f sub rest _ ih =>
    obtain ⟨hok, hnew, hdir, hsub, hrest⟩ := h
    obtain ⟨hnodup, hitems⟩ := ih hrest
    refine ⟨List.nodup_cons.mpr ⟨hnew, hnodup⟩, fun i hi => ?_⟩
    rcases List.mem_cons.mp hi with rfl | hi
    · refine ⟨⟨hok, hdir, nofun⟩, fun l hl => ?_⟩
      rwa [← Option.some.inj hl]
    · exact hitems i hi

theorem Listing.Shows.items {l : Listing L} {p : List UInt8} (h : l.Shows fs p) :
    ∀ i ∈ l.items, fs.openFile (p ++ slash :: i.1) = some i.2.1 ∧
      ∀ sub ∈ i.2.2, Opens fs (p ++ slash :: i.1) sub ∧ Shows fs (p ++ slash :: i.1) sub := by
  induction l with
  | nil => exact nofun
  | file name f rest ih =>
    intro i hi
    rcases List.mem_cons.mp hi with rfl | hi
    · exact ⟨h.1, nofun⟩
    · exact ih h.2 i hi
  | dir name f sub rest _ ih =>
    obtain ⟨hopen, hopens, hsub, hrest⟩ := h
    intro i hi
    rcases List.mem_cons.mp hi with rfl | hi
    · refine ⟨hopen, fun l hl => ?_⟩
      rw [← Option.some.inj hl]
      exact ⟨hopens, hsub⟩
    · exact ih hrest i hi

theorem Listing.lookup_of_notMem {l : Listing L} {x : List UInt8} (h : x ∉ l.names) (q : List (List UInt8)) :
    l.lookup (x :: q) = none := by
  induction l with
  | nil => rfl
  | file name f rest ih =>
    obtain ⟨hne, hrest⟩ := not_or.mp (mt List.mem_cons.mpr h)
    rw [lookup, if_neg hne, ih hrest]
  | dir name f sub rest _ ih =>
    obtain ⟨hne, hrest⟩ := not_or.mp (mt List.mem_cons.mpr h)
    rw [lookup, if_neg hne, ih hrest]

theorem Listing.lookup_of_mem {l : Listing L} (hnodup : l.names.Nodup) {x : List UInt8} {f : FileEntry L}
    {sub : Option (Listing L)} (h : (x, f, sub) ∈ l.items) (q : List (List UInt8)) :
    l.lookup (x :: q) = if q = [] then some (nodeOf f sub) else sub.bind fun l => l.lookup q := by
  induction l with
  | nil => cases h
  | file name f' rest ih =>
    obtain ⟨hnew, hnodup⟩ := List.nodup_cons.mp hnodup
    rcases List.mem_cons.mp h with heq | hmem
    · obtain ⟨rfl, rfl, rfl⟩ : x = name ∧ f = f' ∧ sub = none := by simpa using heq
      rw [lookup, if_pos rfl]
      rfl
    · have hne : x ≠ name := by
        rintro rfl
        exact hnew (List.mem_map.mpr ⟨_, hmem, rfl⟩)
      rw [lookup, if_neg hne, ih hnodup hmem]
  | dir name f' sub' rest _ ih =>
    obtain ⟨hnew, hnodup⟩ := List.nodup_cons.mp hnodup
    rcases List.mem_cons.mp h with heq | hmem
    · obtain ⟨rfl, rfl, rfl⟩ : x = name ∧ f = f' ∧ sub = some sub' := by simpa using heq
      rw [lookup, if_pos rfl]
      rfl
    · have hne : x ≠ name := by
        rintro rfl
        exact hnew (List.mem_map.mpr ⟨_, hmem, rfl⟩)
      rw [lookup, if_neg hne, ih hnodup hmem]

theorem dirs_stackOf (l : Listing L) (path : List UInt8) (acc : List (List UInt8 × Listing L)) :
    ((stackOf path l.items acc).map fun e => e.2.dirs).sum + 1 = l.dirs + (acc.map fun e => e.2.dirs).sum := by
  induction l generalizing acc with
  | nil => exact Nat.add_comm _ _
  | file name f rest ih => exact ih acc
  | dir name f sub rest _ ih =>
    refine (ih ((path ++ slash :: name, sub) :: acc)).trans ?_
    rw [List.map_cons, List.sum_cons, dirs]
    dsimp only
    omega

theorem mem_stackOf {path : List UInt8} {its : List (List UInt8 × FileEntry L × Option (Listing L))}
    {acc : List (List UInt8 × Listing L)} {e : List UInt8 × Listing L} :
    e ∈ stackOf path its acc ↔
      (∃ i ∈ its, i.2.2 = some e.2 ∧ e.1 = path ++ slash :: i.1) ∨ e ∈ acc := by
  induction its generalizing acc with
  | nil => simp [stackOf]
  | cons i its ih =>
    obtain ⟨x, f, sub⟩ := i
    obtain ⟨p, l⟩ := e
    rw [stackOf, ih]
    cases sub with
    | none => simp
    | some l' =>
      simp only [Option.toList_some, List.map_cons, List.map_nil, List.cons_append, List.nil_append,
        List.mem_cons, Prod.mk.injEq]
      constructor
      · rintro (⟨i, hi, h⟩ | ⟨rfl, rfl⟩ | h)
        · exact Or.inl ⟨i, Or.inr hi, h⟩
        · exact Or.inl ⟨_, Or.inl rfl, rfl, rfl⟩
        · exact Or.inr h
      · rintro (⟨i, rfl | hi, h⟩ | h)
        · obtain ⟨h1, h2⟩ := h
          exact Or.inr (Or.inl ⟨h2, (Option.some.inj h1).symm⟩)
        · exact Or.inl ⟨i, hi, h⟩
        · exact Or.inr (Or.inr h)

/-! ## The whole directory -/

/-- None of two places is under the other. -/
def Apart (a b : List (List UInt8)) : Prop := ¬a <+: b ∧ ¬b <+: a

theorem DirWork.place_child (w : DirWork) (path : List UInt8) {x : List UInt8} (hx : NameOk x) :
    w.place (path ++ slash :: x) = w.place path ++ [x] := by
  rw [place, place, ← List.append_assoc, components_append_slash, components_name hx.1 hx.2.1]

/-- What the client can send under `path`. -/
structure Sendable (fs : LocalTree L) (localdir : List UInt8) (e : List UInt8 × Listing L) : Prop where
  valid : e.2.Valid
  opens : e.2.Opens fs (localdir ++ e.1)
  shows_ : e.2.Shows fs (localdir ++ e.1)
  head : e.1.head? = some slash
  zero : 0 ∉ e.1

/-- The directory is there, and nothing in it. -/
structure Ready (w : DirWork) (e : List UInt8 × Listing L) : Prop where
  isDir : w.tree.isDir (w.place e.1) = true
  free : ∀ x, w.tree.node (w.place e.1 ++ [x]) = none

/-- What is under the places is what the client has, and the rest is as it was. -/
structure Grown (w : DirWork) (stack : List (List UInt8 × Listing L)) (tree : FileTree) : Prop where
  found : ∀ e ∈ stack, ∀ q, q ≠ [] → tree.node (w.place e.1 ++ q) = e.2.lookup q
  same : ∀ q, (∀ e ∈ stack, ∀ r, r ≠ [] → q ≠ w.place e.1 ++ r) → tree.node q = w.tree.node q

theorem Ready.below {w : DirWork} {e : List UInt8 × Listing L} (h : Ready w e) (x : List UInt8)
    {q : List (List UInt8)} : w.tree.node (w.place e.1 ++ x :: q) = none := by
  have hnone := h.free x
  cases q with
  | nil => exact hnone
  | cons y q =>
    have hdir : w.tree.isDir (w.place e.1 ++ [x]) = false := by rw [FileTree.isDir, hnone]; rfl
    have hbelow := FileTree.node_append hdir (List.cons_ne_nil y q)
    rwa [List.append_assoc] at hbelow

section Next

variable {w : DirWork} {path : List UInt8} {l : Listing L} {rest : List (List UInt8 × Listing L)}
  {tree tree' : FileTree}

theorem Made.ready (hmade : Made w path l.items tree) (hvalid : l.Valid)
    (hready : ∀ e ∈ (path, l) :: rest, Ready w e)
    (hapart : ((path, l) :: rest).Pairwise fun e e' => Apart (w.place e.1) (w.place e'.1)) :
    ∀ e ∈ stackOf path l.items rest, Ready { w with tree := tree } e := by
  obtain ⟨hnodup, hitems⟩ := hvalid.items
  obtain ⟨hpath, -⟩ := List.pairwise_cons.mp hapart
  have hhere := hready _ List.mem_cons_self
  intro e he
  rcases mem_stackOf.mp he with ⟨i, hi, hsub, hpe⟩ | he
  · -- a directory that has just been made
    have hplace : w.place e.1 = w.place path ++ [i.1] := by
      rw [hpe]
      exact w.place_child path (hitems i hi).1.name
    constructor
    · change tree.isDir (w.place e.1) = true
      rw [hplace, FileTree.isDir, hmade.made i hi, hsub]
      rfl
    · intro y
      change tree.node (w.place e.1 ++ [y]) = none
      rw [hplace, List.append_assoc, hmade.same _ (by simp)]
      exact hhere.below i.1
  · obtain ⟨hnot, hnot'⟩ := hpath e he
    have hold := hready e (List.mem_cons_of_mem _ he)
    constructor
    · change tree.isDir (w.place e.1) = true
      rw [FileTree.isDir, hmade.same _ fun i _ heq => hnot ⟨[i.1], heq.symm⟩]
      exact hold.isDir
    · intro y
      change tree.node (w.place e.1 ++ [y]) = none
      rw [hmade.same _ fun i _ heq => hnot ?_]
      · exact hold.free y
      · rw [(List.append_inj' heq rfl).1]

theorem stackOf_apart {its : List (List UInt8 × FileEntry L × Option (Listing L))}
    (hnames : ∀ i ∈ its, NameOk i.1) (hnodup : (its.map fun i => i.1).Nodup)
    (hrest : rest.Pairwise fun e e' => Apart (w.place e.1) (w.place e'.1))
    (hfree : ∀ e ∈ rest, ∀ i ∈ its, Apart (w.place path ++ [i.1]) (w.place e.1)) :
    (stackOf path its rest).Pairwise fun e e' => Apart (w.place e.1) (w.place e'.1) := by
  induction its generalizing rest with
  | nil => exact hrest
  | cons i its ih =>
    obtain ⟨x, f, sub⟩ := i
    obtain ⟨hx, hnodup⟩ := List.nodup_cons.mp hnodup
    have hname := hnames _ List.mem_cons_self
    refine ih (fun i hi => hnames i (List.mem_cons_of_mem _ hi)) hnodup ?_ ?_
    · cases sub with
      | none => exact hrest
      | some l =>
        refine List.pairwise_cons.mpr ⟨fun e he => ?_, hrest⟩
        rw [w.place_child path hname]
        exact hfree e he _ List.mem_cons_self
    · intro e he i hi
      rcases List.mem_append.mp he with he | he
      · obtain ⟨l, -, rfl⟩ := List.mem_map.mp he
        have hne : i.1 ≠ x := by
          rintro rfl
          exact hx (List.mem_map.mpr ⟨i, hi, rfl⟩)
        rw [w.place_child path hname]
        constructor
        · intro hfront
          exact hne (by simpa using List.IsPrefix.eq_of_length hfront (by simp))
        · intro hfront
          exact hne.symm (by simpa using List.IsPrefix.eq_of_length hfront (by simp))
      · exact hfree e he i (List.mem_cons_of_mem _ hi)

/-- What is apart from a place is apart from what is under it. -/
theorem Apart.below {a b : List (List UInt8)} (h : Apart a b) (x : List UInt8) : Apart (a ++ [x]) b := by
  constructor
  · exact fun hfront => h.1 ((List.prefix_append a [x]).trans hfront)
  · intro hfront
    rcases List.prefix_concat_iff.mp hfront with heq | hfront
    · exact h.1 (heq ▸ List.prefix_append a [x])
    · exact h.2 hfront

/-- What has grown under the entries of a directory has grown under the directory. -/
theorem Grown.up (h : Grown { w with tree := tree } (stackOf path l.items rest) tree') (hvalid : l.Valid)
    (hmade : Made w path l.items tree) (hready : Ready w (path, l))
    (hpath : ∀ e ∈ rest, Apart (w.place path) (w.place e.1)) : Grown w ((path, l) :: rest) tree' := by
  obtain ⟨hnodup, hitems⟩ := hvalid.items
  -- a place in the stack is no way up from a name that has nothing under it
  have hunder : ∀ x q, (∀ i ∈ l.items, ∀ sub, i.2.2 = some sub → i.1 = x → q = []) →
      tree'.node (w.place path ++ x :: q) = tree.node (w.place path ++ x :: q) := by
    intro x q hleaf
    refine h.same _ fun e he r hr heq => ?_
    change w.place path ++ x :: q = w.place e.1 ++ r at heq
    rcases mem_stackOf.mp he with ⟨i, hi, hsub, hpe⟩ | he
    · rw [hpe, w.place_child path (hitems i hi).1.name, List.append_assoc, List.append_cancel_left_eq,
        List.singleton_append, List.cons.injEq] at heq
      obtain ⟨hix, hqr⟩ := heq
      exact hr (hqr.symm.trans (hleaf i hi e.2 hsub hix.symm))
    · have hl : w.place path <+: w.place e.1 ++ r := heq ▸ List.prefix_append _ _
      rcases List.prefix_or_prefix_of_prefix hl (List.prefix_append _ _) with hp | hp
      · exact (hpath e he).1 hp
      · exact (hpath e he).2 hp
  constructor
  · intro e he q hq
    rcases List.mem_cons.mp he with rfl | he
    · cases q with
      | nil => exact absurd rfl hq
      | cons x q =>
        dsimp only
        by_cases hx : x ∈ l.names
        · obtain ⟨⟨x', f, sub⟩, hi, rfl⟩ := List.mem_map.mp hx
          rw [lookup_of_mem hnodup hi]
          dsimp only
          by_cases hnil : q = []
          · subst hnil
            rw [if_pos rfl, hunder _ _ fun _ _ _ _ _ => rfl]
            exact hmade.made _ hi
          · rw [if_neg hnil]
            cases sub with
            | some l' =>
              have hfound := h.found (path ++ slash :: x', l') (mem_stackOf.mpr (Or.inl ⟨_, hi, rfl, rfl⟩)) q hnil
              change tree'.node (w.place (path ++ slash :: x') ++ q) = _ at hfound
              rw [w.place_child path (hitems _ hi).1.name, List.append_assoc] at hfound
              exact hfound
            | none =>
              rw [hunder, hmade.same, hready.below]
              · rfl
              · intro i _ heq
                rw [List.append_cancel_left_eq, List.cons.injEq] at heq
                exact hnil heq.2
              · intro i hi' sub hsub hix
                have hsame : i = (x', f, none) := List.inj_on_of_nodup_map hnodup hi' hi hix
                rw [hsame] at hsub
                cases hsub
        · rw [lookup_of_notMem hx, hunder, hmade.same, hready.below]
          · intro i hi heq
            rw [List.append_cancel_left_eq, List.cons.injEq] at heq
            exact hx (List.mem_map.mpr ⟨i, hi, heq.1.symm⟩)
          · intro i hi _ _ hix
            exact absurd (List.mem_map.mpr ⟨i, hi, hix⟩) hx
    · exact h.found e (mem_stackOf.mpr (Or.inr he)) q hq
  · intro q hq
    rw [h.same q, ← hmade.same q]
    · intro i _ heq
      exact hq _ List.mem_cons_self [i.1] (List.cons_ne_nil _ _) heq
    · intro e he r hr heq
      rcases mem_stackOf.mp he with ⟨i, hi, -, hpe⟩ | he
      · change q = w.place e.1 ++ r at heq
        rw [hpe, w.place_child path (hitems i hi).1.name, List.append_assoc] at heq
        exact hq _ List.mem_cons_self _ (by simp) heq
      · exact hq e (List.mem_cons_of_mem _ he) r hr heq

end Next

/-- **The loop over `pathlist`** comes to its end with the directories that there are, and
what it sends grows under their places. -/
theorem sendPaths_spec (baseDir : List UInt8) (hcmd : cmd ≠ cmdFinish) (hbare : Bare localdir) {fuel : Nat}
    {stack : List (List UInt8 × Listing L)} (hsend : ∀ e ∈ stack, Sendable fs localdir e)
    (hfuel : (stack.map fun e => e.2.dirs).sum < fuel) :
    ∃ pkgs, sendPaths L sha c fs localdir cmd type fuel (stack.map Prod.fst) = some pkgs ∧
      ((∀ p ∈ pkgs, Delivered p) → ∀ w : DirWork, w.Open → (∀ e ∈ stack, Ready w e) →
        (stack.Pairwise fun e e' => Apart (w.place e.1) (w.place e'.1)) →
        ∃ tree, feed (DirWork.run L sha baseDir) w pkgs =
          ({ w with tree := tree }, List.replicate pkgs.length .pending) ∧ Grown w stack tree) := by
  induction fuel generalizing stack with
  | zero => exact absurd hfuel (Nat.not_lt_zero _)
  | succ fuel ih =>
    cases stack with
    | nil => exact ⟨[], rfl, fun _ w _ _ _ => ⟨w.tree, rfl, nofun, fun q _ => rfl⟩⟩
    | cons e rest =>
      obtain ⟨path, l⟩ := e
      obtain ⟨hvalid, ⟨es, hopendir, hfilter⟩, hshows, hhead, hzero⟩ := hsend _ List.mem_cons_self
      dsimp only at hvalid hopendir hfilter hshows hhead hzero
      obtain ⟨hnodup, hitems⟩ := hvalid.items
      have hshown := hshows.items
      have hlocal : ∀ x : List UInt8, localdir ++ path ++ slash :: x = localdir ++ (path ++ slash :: x) :=
        fun x => List.append_assoc _ _ _
      obtain ⟨pkgs, hpkgs, hfeed⟩ := sendEntries_spec baseDir rest hcmd hbare
        (fun i hi => ⟨(hitems i hi).1, by rw [← hlocal]; exact (hshown i hi).1⟩) hnodup hhead hzero
      have hnext : ∀ e ∈ stackOf path l.items rest, Sendable fs localdir e := by
        intro e he
        rcases mem_stackOf.mp he with ⟨i, hi, hsub, hpe⟩ | he
        · obtain ⟨hok, hsubvalid⟩ := hitems i hi
          obtain ⟨-, hsubshown⟩ := hshown i hi
          obtain ⟨hopens, hshows'⟩ := hsubshown e.2 hsub
          rw [hlocal, ← hpe] at hopens hshows'
          refine ⟨hsubvalid e.2 hsub, hopens, hshows', ?_, ?_⟩
          · rw [hpe, List.head?_append, hhead]
            rfl
          · rw [hpe]
            simp only [List.mem_append, List.mem_cons, not_or]
            exact ⟨hzero, by decide, hok.name.2.2.1⟩
        · exact hsend e (List.mem_cons_of_mem _ he)
      have hless : ((stackOf path l.items rest).map fun e => e.2.dirs).sum < fuel := by
        have hcount := dirs_stackOf l path rest
        rw [List.map_cons, List.sum_cons] at hfuel
        dsimp only at hfuel
        omega
      obtain ⟨pkgs', hpkgs', hfeed'⟩ := ih hnext hless
      refine ⟨pkgs ++ pkgs', ?_, ?_⟩
      · rw [List.map_cons, sendPaths]
        dsimp only
        rw [hopendir]
        dsimp only
        rw [sendEntries_filter, hfilter, hpkgs]
        dsimp only
        rw [hpkgs', Option.map_some]
      · intro hdel w hw hready hapart
        have hhere := hready _ List.mem_cons_self
        obtain ⟨hpath, hrest⟩ := List.pairwise_cons.mp hapart
        obtain ⟨tree, hone, hmade⟩ := hfeed (fun p hp => hdel p (List.mem_append_left _ hp)) w hw hhere.isDir
          fun i _ => hhere.free i.1
        obtain ⟨tree', hmore, hgrown⟩ := hfeed' (fun p hp => hdel p (List.mem_append_right _ hp))
          { w with tree := tree } ⟨hw.isFirstPkg, hw.fileReciever⟩ (hmade.ready hvalid hready hapart)
          (stackOf_apart (fun i hi => (hitems i hi).1.name) hnodup hrest fun e he i _ => (hpath e he).below i.1)
        refine ⟨tree', ?_, hgrown.up hvalid hmade hhere hpath⟩
        rw [feed_append, hone]
        dsimp only
        rw [hmore, List.length_append, List.replicate_append_replicate]

/-- The first packet makes the directory, and what is on the way to it. -/
theorem run_head (baseDir : List UInt8) {remotedir : List UInt8} {t : FileTree} (l : Listing L)
    (hremote : remotedir ≠ [])
    (hway : ∀ q, q <+: components (expand baseDir remotedir) → t.isFile q = false)
    (hfree : ∀ x, t.node (components (expand baseDir remotedir) ++ [x]) = none) :
    ∃ w : DirWork, DirWork.run L sha baseDir (tCommand cmd type 0 ++ remotedir) { tree := t } = (w, .pending) ∧
      w.Open ∧ w.dirname = expand baseDir remotedir ∧ w.place [slash] = components (expand baseDir remotedir) ∧
      Ready w ([slash], l) ∧
      ∀ q, w.tree.node q = if q <+: components (expand baseDir remotedir) ∧ (t.node q).isNone = true then
        some (.dir none) else t.node q := by
  obtain ⟨hfails, hnodes⟩ :
      (t.ensureAll [] (components (expand baseDir remotedir)) = none ↔ _) ∧ _ := FileTree.ensureAll_spec t.root
  rw [← t.createDirTree_eq] at hfails hnodes
  obtain ⟨t₁, ht₁⟩ : ∃ t₁, t.createDirTree (expand baseDir remotedir) = some t₁ := by
    refine Option.ne_none_iff_exists'.mp fun hnone => ?_
    obtain ⟨q, hq, hfile⟩ := hfails.mp hnone
    rw [hway q hq] at hfile
    cases hfile
  have hnode := hnodes t₁ ht₁
  have hplace : DirWork.place { tree := t₁, isFirstPkg := false, dirname := expand baseDir remotedir } [slash] =
      components (expand baseDir remotedir) := by
    rw [DirWork.place, components_append_slash, components_nil, List.append_nil]
  refine ⟨{ tree := t₁, isFirstPkg := false, dirname := expand baseDir remotedir }, ?_, ⟨rfl, rfl⟩, rfl, hplace,
    ⟨?_, fun x => ?_⟩, hnode⟩
  · rw [DirWork.run, if_pos rfl, List.drop_left' (length_tCommand cmd type 0)]
    dsimp only
    rw [if_neg hremote, ht₁]
  · change t₁.isDir (DirWork.place _ [slash]) = true
    rw [hplace, FileTree.isDir, hnode]
    have hnofile := hway _ (List.prefix_refl _)
    rw [FileTree.isFile] at hnofile
    cases hn : t.node (components (expand baseDir remotedir)) with
    | none =>
      rw [if_pos ⟨List.prefix_refl _, rfl⟩]
      rfl
    | some n =>
      rw [hn] at hnofile
      rw [if_neg (by simp)]
      simpa using hnofile
  · change t₁.node (DirWork.place _ [slash] ++ [x]) = none
    rw [hplace, hnode, if_neg, hfree]
    rintro ⟨hfront, -⟩
    have hlen := hfront.length_le
    rw [List.length_append] at hlen
    exact Nat.not_succ_le_self _ hlen

/-- What `sendDir` sends, fed to a new `CDirReciever`. -/
theorem feed_sendDir {c : List UInt8 → Nat → Nat} {fs : LocalTree L} {localdir remotedir : List UInt8}
    (baseDir : List UInt8) {cmd type : UInt8} {l : Listing L} {t : FileTree} {fuel : Nat} (hcmd : cmd ≠ cmdFinish)
    (hremote : remotedir ≠ []) (hbare : Bare localdir)
    (hvalid : l.Valid) (hopens : l.Opens fs (localdir ++ [slash])) (hshows : l.Shows fs (localdir ++ [slash]))
    (hway : ∀ q, q <+: components (expand baseDir remotedir) → t.isFile q = false)
    (hfree : ∀ x, t.node (components (expand baseDir remotedir) ++ [x]) = none) (hfuel : l.dirs < fuel) :
    ∃ pkgs, sendDir L sha c fs localdir cmd type fuel remotedir = some pkgs ∧
      ((∀ p ∈ pkgs, Delivered p) →
        ∃ w, feed (DirWork.run L sha baseDir) { tree := t } pkgs =
            (w, List.replicate (pkgs.length - 1) .pending ++ [.finish]) ∧
          w.dirname = expand baseDir remotedir ∧
          (∀ q, q ≠ [] → w.tree.node (components (expand baseDir remotedir) ++ q) = l.lookup q) ∧
          ∀ q, (∀ x, ¬components (expand baseDir remotedir) ++ [x] <+: q) → w.tree.node q =
            if q <+: components (expand baseDir remotedir) ∧ (t.node q).isNone = true then some (.dir none)
            else t.node q) := by
  have hsend : ∀ e ∈ [([slash], l)], Sendable fs localdir e := by
    intro e he
    obtain rfl := List.mem_singleton.mp he
    exact ⟨hvalid, hopens, hshows, rfl, by dsimp only; decide⟩
  have hsum : (([([slash], l)] : List (List UInt8 × Listing L)).map fun e => e.2.dirs).sum < fuel := by
    simpa using hfuel
  obtain ⟨pkgs, hpkgs, hfeed⟩ := sendPaths_spec baseDir hcmd hbare hsend hsum
  refine ⟨(tCommand cmd type 0 ++ remotedir) :: pkgs ++ [tCommand cmdFinish type 0], ?_, fun hdel => ?_⟩
  · rw [sendDir, if_neg hremote]
    rw [show sendPaths L sha c fs localdir cmd type fuel [[slash]] = some pkgs from hpkgs, Option.map_some]
  · obtain ⟨w, hhead, hopen, hdirname, hplace, hready, hnode⟩ := run_head baseDir l hremote hway hfree
    obtain ⟨tree, hmany, hgrown⟩ := hfeed (fun p hp => hdel p (by simp [hp])) w hopen
      (fun e he => by obtain rfl := List.mem_singleton.mp he; exact hready) (List.pairwise_singleton _ _)
    have hlast : DirWork.run L sha baseDir (tCommand cmdFinish type 0) { w with tree := tree } =
        ({ w with tree := tree }, .finish) := by
      rw [DirWork.run, if_neg (by rw [hopen.isFirstPkg]; decide), DirWork.processPkg, hopen.fileReciever]
      rfl
    refine ⟨{ w with tree := tree }, ?_, hdirname, fun q hq => ?_, fun q hq => ?_⟩
    · rw [List.cons_append, feed, hhead, feed_append, hmany]
      simp only [feed, hlast]
      rw [List.length_cons, List.length_append, List.length_singleton, Nat.add_sub_cancel, List.replicate_succ]
      rfl
    · rw [← hplace]
      exact hgrown.found _ List.mem_cons_self q hq
    · refine (hgrown.same q fun e he r hr heq => ?_).trans (hnode q)
      obtain rfl := List.mem_singleton.mp he
      obtain ⟨x, r, rfl⟩ := List.exists_cons_of_ne_nil hr
      refine hq x ?_
      rw [heq, hplace]
      exact ⟨r, List.append_assoc _ [x] r⟩

/-- **A directory comes out as it went in.** For every listing, wherever `read` and
`readdir` stop and however deep it is: the packets are taken one by one, the last one
ends it, and then the server has under the directory exactly what the client has, with its
stats, and elsewhere what it had, but for the directories on the way. -/
theorem dir_round_trip (L : StatLayout) (sha : Sha256) (d : Des) (c : List UInt8 → Nat → Nat)
    (fs : LocalTree L) (localdir remotedir baseDir : List UInt8) (cmd type : UInt8) (l : Listing L)
    (t : FileTree) (fuel : Nat) (hcmd : cmd ≠ cmdFinish) (hremote : remotedir ≠ []) (hbare : Bare localdir)
    (hvalid : l.Valid) (hopens : l.Opens fs (localdir ++ [slash])) (hshows : l.Shows fs (localdir ++ [slash]))
    (hway : ∀ q, q <+: components (expand baseDir remotedir) → t.isFile q = false)
    (hfree : ∀ x, t.node (components (expand baseDir remotedir) ++ [x]) = none) (hfuel : l.dirs < fuel) :
    ∃ pkgs, sendDir L sha c fs localdir cmd type fuel remotedir = some pkgs ∧
      ((∀ p ∈ pkgs, Delivered p) →
        let r := feed (DirWork.run L sha baseDir) { tree := t } (pkgs.map fun p => d.desDecrypt (d.desEncrypt p))
        let place := components (expand baseDir remotedir)
        r.2 = List.replicate (pkgs.length - 1) .pending ++ [.finish] ∧
          (∀ q, q ≠ [] → r.1.tree.node (place ++ q) = l.lookup q) ∧
          ∀ q, (∀ x, ¬place ++ [x] <+: q) → r.1.tree.node q =
            if q <+: place ∧ (t.node q).isNone = true then some (.dir none) else t.node q) := by
  obtain ⟨pkgs, hsend, hround⟩ :=
    feed_sendDir baseDir hcmd hremote hbare hvalid hopens hshows hway hfree hfuel
  refine ⟨pkgs, hsend, fun hdel => ?_⟩
  obtain ⟨w, hfeed, -, hfound, hsame⟩ := hround hdel
  rw [map_desDecrypt d hdel, hfeed]
  exact ⟨rfl, hfound, hsame⟩

end Feed

/-! ### A file in a directory in a directory -/

def aDirectory : FileEntry byteStat where
  st := [0xff]
  content := []
  length_st := rfl
  size_eq h := absurd h (by decide)

/-- `b`, with the file `a` in it. -/
def nested : Listing byteStat := .dir [98] aDirectory (.file [97] sixBytes .nil) .nil

def nestedTree : LocalTree byteStat where
  opendir p :=
    if p = [99, 0x2f] then some [⟨[0x2e], true⟩, ⟨[98], true⟩, ⟨[0x2e, 0x2e], true⟩]
    else if p = [99, 0x2f, 0x2f, 98] then some [⟨[97], false⟩]
    else none
  openFile p := some (if p.getLast? = some 97 then sixBytes else aDirectory)

def rootOnly : FileTree where
  node c := if c = [] then some (.dir none) else none
  root := rfl
  parent c hne h := by
    rw [if_neg hne] at h
    cases h

theorem delivered_of_all {sent : Option (List (List UInt8))}
    (h : (sent.all fun pkgs => pkgs.all fun p => decide ((Des.padded p).length ≤ 100 * 1024 * 1024)) = true)
    {pkgs : List (List UInt8)} (hsent : sent = some pkgs) : ∀ p ∈ pkgs, Delivered p := by
  intro p hp
  rw [hsent] at h
  unfold Delivered
  exact of_decide_eq_true (List.all_eq_true.mp h p hp)

theorem nested_valid : nested.Valid := by
  have hname : ∀ x : UInt8, x ≠ slash → x ≠ 0 → x ≠ 0x2e → Listing.NameOk [x] := by
    intro x h1 h2 h3
    simp [Listing.NameOk, dots, h1.symm, h2.symm, h3]
  exact ⟨hname 98 (by decide) (by decide) (by decide), List.not_mem_nil, rfl,
    ⟨hname 97 (by decide) (by decide) (by decide), List.not_mem_nil, rfl, by decide, trivial⟩, trivial⟩

theorem rootOnly_isFile (q : List (List UInt8)) : rootOnly.isFile q = false := by
  unfold FileTree.isFile rootOnly
  dsimp only
  split <;> rfl

theorem rootOnly_free (place : List (List UInt8)) (x : List UInt8) : rootOnly.node (place ++ [x]) = none := by
  unfold rootOnly
  dsimp only
  exact if_neg (List.append_ne_nil_of_right_ne_nil _ (List.cons_ne_nil x []))

theorem dir_round_trip_nested :
    ∃ pkgs, sendDir byteStat byteSum (fun _ _ => 1) nestedTree [99] 3 0 3 (tmpVar ++ [120]) = some pkgs ∧
      let r := feed (DirWork.run byteStat byteSum [slash]) { tree := rootOnly }
        (pkgs.map fun p => reversed.desDecrypt (reversed.desEncrypt p))
      let place := components (expand [slash] (tmpVar ++ [120]))
      r.2 = List.replicate (pkgs.length - 1) .pending ++ [.finish] ∧
        (∀ q, q ≠ [] → r.1.tree.node (place ++ q) = nested.lookup q) ∧
        ∀ q, (∀ x, ¬place ++ [x] <+: q) → r.1.tree.node q =
          if q <+: place ∧ (rootOnly.node q).isNone = true then some (.dir none) else rootOnly.node q := by
  obtain ⟨pkgs, hsend, hround⟩ := dir_round_trip byteStat byteSum reversed (fun _ _ => 1) nestedTree [99]
    (tmpVar ++ [120]) [slash] 3 0 nested rootOnly 3 (by decide) (by decide) ⟨by decide, by decide⟩ nested_valid
    ⟨_, rfl, rfl⟩ ⟨rfl, ⟨_, rfl, rfl⟩, ⟨rfl, trivial⟩, trivial⟩ (fun q _ => rootOnly_isFile q) (rootOnly_free _)
    (by decide)
  exact ⟨pkgs, hsend, hround (delivered_of_all (by decide +kernel) hsend)⟩

end NatFramework.Tunnel
