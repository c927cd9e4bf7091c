import NatFramework.Io.CRawIOReader
import NatFramework.Lib.KMerge

/-!
# Readers in a pool

`io/CReaderPool`: readers of several groups, each under a hash. `seqRead` looks
at the next frame of every reader, which may take a reader on to its next page,
and reads the earliest; of equal ones that of the reader that stands first.

* `seqRead_spec`: one call takes the head of the merge of what is left.
* `seqReadN_spec`: all calls give that merge, and then null.
-/
namespace NatFramework.Io

open Lib CRawIOReader

/-- `group` is what the prefix of the reader names.
mirrors io/CReaderPool.h:25-30 -/
structure CReaderInfo where
  group : PageGroup
  reader : CRawIOReader
  hash : Nat

namespace CReaderPool

/-- `long` to `uint64_t`. -/
def toUlong (z : Int) : Nat := (z % (2 ^ 64 : Nat)).toNat

/-- The reader after `getCurFrame`. -/
def peek (i : CReaderInfo) : CReaderInfo := { i with reader := (getCurFrame i.group i.reader).1 }

/-- The loop of `seqRead`, at reader number `n`: the readers, and the number of
`cur_reader`.
mirrors io/CReaderPool.h:81-87 -/
def pick : List CReaderInfo → Nat → Int → Option Nat → List CReaderInfo × Option Nat
  | [], _, _, cur => ([], cur)
  | i :: is, n, minNano, cur =>
    let rest :=
      match (getCurFrame i.group i.reader).2 with
      | some p =>
        if minNano < 0 ∨ toUlong minNano > p.nano then pick is (n + 1) (toLong p.nano) (some n)
        else pick is (n + 1) minNano cur
      | none => pick is (n + 1) minNano cur
    (peek i :: rest.1, rest.2)

/-- The frame, its length and the hash of its reader.
mirrors io/CReaderPool.h:78-94 -/
def seqRead (pool : List CReaderInfo) : List CReaderInfo × Option (Frame × Nat × Nat) :=
  let found := pick pool 0 (-1) none
  match found.2 with
  | none => (found.1, none)
  | some c =>
    match found.1[c]? with
    | none => (found.1, none)
    | some i =>
      let res := read i.group i.reader
      (found.1.set c { i with reader := res.1 }, res.2.map fun p => (p, p.data.length, i.hash))

/-! ## What is left to read -/

/-- `out` is what the reader has left of pages nobody writes to. -/
def Unread (i : CReaderInfo) (out : List Frame) : Prop :=
  ∃ fss, i.group.Static fss ∧ Reads i.group fss i.reader out

theorem Unread.peek {i : CReaderInfo} {out : List Frame} (h : Unread i out) :
    (getCurFrame i.group i.reader).2 = out.head? ∧ Unread (peek i) out := by
  obtain ⟨fss, hst, hr⟩ := h
  obtain ⟨h1, h2⟩ := getCurFrame_spec hst.carries hr
  exact ⟨h1, fss, hst, h2⟩

theorem Unread.read {i : CReaderInfo} {out : List Frame} (h : Unread i out) :
    (read i.group i.reader).2 = out.head? ∧
      Unread { i with reader := (CRawIOReader.read i.group i.reader).1 } out.tail := by
  obtain ⟨fss, hst, hr⟩ := h
  obtain ⟨h1, h2⟩ := read_spec hst.carries hr
  exact ⟨h1, fss, hst, h2⟩

variable {pool : List CReaderInfo} {outs : List (List Frame)}

theorem pick_readers (is : List CReaderInfo) (n : Nat) (minNano : Int) (cur : Option Nat) :
    (pick is n minNano cur).1 = is.map peek := by
  induction is generalizing n minNano cur with
  | nil => rfl
  | cons i is ih =>
    rw [pick]
    dsimp only
    split
    · split <;> rw [ih] <;> rfl
    · rw [ih]
      rfl

/-- No frame ahead is before `m`. -/
def NoneBefore (m : Nat) (outs : List (List Frame)) : Prop := ∀ out ∈ outs, ∀ y ∈ out.head?, m ≤ y.nano

/-- All frames ahead are behind `m`. -/
def AllAfter (m : Nat) (outs : List (List Frame)) : Prop := ∀ out ∈ outs, ∀ y ∈ out.head?, m < y.nano

/-- List `n` is the first of those with the earliest head. -/
def Earliest (outs : List (List Frame)) (n : Nat) (x : Frame) : Prop :=
  ∃ oa q ob, outs = oa ++ (x :: q) :: ob ∧ oa.length = n ∧ AllAfter x.nano oa ∧ NoneBefore x.nano ob

/-- Times in the range of `long`, so that none is negative there. -/
def Times (outs : List (List Frame)) : Prop := ∀ out ∈ outs, ∀ y ∈ out, y.nano < 2 ^ 63

theorem toUlong_of_lt {n : Nat} (h : n < 2 ^ 63) : toUlong (n : Int) = n := by
  unfold toUlong
  omega

theorem forall_cons {P : Frame → Prop} {out : List Frame} (h : ∀ y ∈ out.head?, P y)
    (hs : ∀ out ∈ outs, ∀ y ∈ out.head?, P y) : ∀ o ∈ out :: outs, ∀ y ∈ o.head?, P y := by
  intro o ho
  rcases List.mem_cons.mp ho with rfl | ho
  · exact h
  · exact hs o ho

theorem Earliest.cons {n : Nat} {x : Frame} {out : List Frame} (h : Earliest outs n x)
    (hout : ∀ y ∈ out.head?, x.nano < y.nano) : Earliest (out :: outs) (n + 1) x := by
  obtain ⟨oa, q, ob, rfl, rfl, hoa, hob⟩ := h
  exact ⟨out :: oa, q, ob, rfl, rfl, forall_cons (P := fun y => x.nano < y.nano) hout hoa, hob⟩

theorem Earliest.head {x : Frame} {q : List Frame} (h : NoneBefore x.nano outs) :
    Earliest ((x :: q) :: outs) 0 x :=
  ⟨[], q, outs, rfl, rfl, (fun o ho => by cases ho), h⟩

/-- Once a frame has been found, a later reader is chosen only if it is earlier. -/
theorem pick_some {m c n : Nat} (h : List.Forall₂ Unread pool outs) (ht : Times outs) (hm : m < 2 ^ 63) :
    ((pick pool n m (some c)).2 = some c ∧ NoneBefore m outs) ∨
      ∃ j x, (pick pool n m (some c)).2 = some (n + j) ∧ x.nano < m ∧ Earliest outs j x := by
  induction h generalizing m c n with
  | nil => exact Or.inl ⟨rfl, fun out ho => by cases ho⟩
  | @cons i out is outs hi his ih =>
    have ht' : Times outs := fun o ho => ht o (List.mem_cons_of_mem out ho)
    rw [pick, hi.peek.1]
    cases out with
    | nil =>
      have hnil : ∀ P : Frame → Prop, ∀ y ∈ ([] : List Frame).head?, P y := fun P y hy => by cases hy
      obtain ⟨h1, h2⟩ | ⟨j, x, h1, h2, h3⟩ := ih (c := c) (n := n + 1) ht' hm
      · exact Or.inl ⟨h1, forall_cons (hnil _) h2⟩
      · refine Or.inr ⟨j + 1, x, ?_, h2, h3.cons (hnil _)⟩
        rw [← Nat.add_assoc, Nat.add_right_comm]
        exact h1
    | cons y q =>
      have hy : y.nano < 2 ^ 63 := ht (y :: q) List.mem_cons_self y List.mem_cons_self
      have hhead : ∀ z ∈ (y :: q).head?, z = y := fun z hz => (Option.some.inj hz).symm
      dsimp only [List.head?_cons]
      rw [toUlong_of_lt hm, toLong_of_lt hy]
      by_cases hlt : y.nano < m
      · rw [if_pos (Or.inr hlt)]
        obtain ⟨h1, h2⟩ | ⟨j, x, h1, h2, h3⟩ := ih (c := n) (n := n + 1) ht' hy
        · exact Or.inr ⟨0, y, h1, hlt, .head h2⟩
        · refine Or.inr ⟨j + 1, x, ?_, Nat.lt_trans h2 hlt, h3.cons fun z hz => hhead z hz ▸ h2⟩
          rw [← Nat.add_assoc, Nat.add_right_comm]
          exact h1
      · rw [if_neg (by omega)]
        obtain ⟨h1, h2⟩ | ⟨j, x, h1, h2, h3⟩ := ih (c := c) (n := n + 1) ht' hm
        · exact Or.inl ⟨h1, forall_cons (fun z hz => hhead z hz ▸ Nat.le_of_not_lt hlt) h2⟩
        · refine Or.inr ⟨j + 1, x, ?_, h2, h3.cons fun z hz => hhead z hz ▸ by omega⟩
          rw [← Nat.add_assoc, Nat.add_right_comm]
          exact h1

/-- The loop chooses the first of the earliest, and nothing only if nothing is there. -/
theorem pick_none {n : Nat} (h : List.Forall₂ Unread pool outs) (ht : Times outs) :
    ((pick pool n (-1) none).2 = none ∧ ∀ out ∈ outs, out = []) ∨
      ∃ j x, (pick pool n (-1) none).2 = some (n + j) ∧ Earliest outs j x := by
  induction h generalizing n with
  | nil => exact Or.inl ⟨rfl, fun out ho => by cases ho⟩
  | @cons i out is outs hi his ih =>
    have ht' : Times outs := fun o ho => ht o (List.mem_cons_of_mem out ho)
    rw [pick, hi.peek.1]
    cases out with
    | nil =>
      obtain ⟨h1, h2⟩ | ⟨j, x, h1, h2⟩ := ih (n := n + 1) ht'
      · refine Or.inl ⟨h1, fun o ho => ?_⟩
        rcases List.mem_cons.mp ho with rfl | ho
        · rfl
        · exact h2 o ho
      · refine Or.inr ⟨j + 1, x, ?_, h2.cons fun y hy => by cases hy⟩
        rw [← Nat.add_assoc, Nat.add_right_comm]
        exact h1
    | cons y q =>
      have hy : y.nano < 2 ^ 63 := ht (y :: q) List.mem_cons_self y List.mem_cons_self
      dsimp only [List.head?_cons]
      rw [if_pos (Or.inl (by decide)), toLong_of_lt hy]
      obtain ⟨h1, h2⟩ | ⟨j, x, h1, h2, h3⟩ := pick_some (c := n) (n := n + 1) his ht' hy
      · exact Or.inr ⟨0, y, h1, .head h2⟩
      · refine Or.inr ⟨j + 1, x, ?_, h3.cons fun z hz => Option.some.inj hz ▸ h2⟩
        rw [← Nat.add_assoc, Nat.add_right_comm]
        exact h1

/-! ## Reading them all -/

/-- What the pool has left, each frame with the number of its reader. -/
def merged (outs : List (List Frame)) : List (Nat × Frame) :=
  mergeAll (Frame.nano ∘ Prod.snd) (tagAll 0 outs)

/-- What a caller of `seqRead` gets of a frame of reader number `m.1`. -/
def given (hashes : List Nat) (m : Nat × Frame) : Option (Frame × Nat × Nat) :=
  (hashes[m.1]?).map fun h => (m.2, m.2.data.length, h)

theorem merged_of_earliest {j : Nat} {x : Frame} (h : Earliest outs j x) :
    ∃ q, outs[j]? = some (x :: q) ∧ merged outs = (j, x) :: merged (outs.set j q) := by
  obtain ⟨oa, q, ob, rfl, rfl, hoa, hob⟩ := h
  refine ⟨q, by simp, ?_⟩
  have hset : (oa ++ (x :: q) :: ob).set oa.length q = oa ++ q :: ob := by simp
  rw [hset, merged, merged, tagAll_append, tagAll_append, tagAll_cons, tagAll_cons, Nat.zero_add,
    List.map_cons]
  refine mergeAll_least (fun q' hq' y hy => ?_) fun q' hq' y hy => ?_
  · obtain ⟨out, ho, hy⟩ := head_tagAll hq' hy
    exact hoa out ho y.2 hy
  · obtain ⟨out, ho, hy⟩ := head_tagAll hq' hy
    exact hob out ho y.2 hy

theorem merged_nil (h : ∀ out ∈ outs, out = []) : merged outs = [] := by
  rw [List.eq_nil_iff_forall_not_mem]
  intro m hm
  obtain ⟨q, hq, hm⟩ := mem_mergeAll.mp hm
  obtain ⟨p, hp, rfl⟩ := List.mem_map.mp hq
  rw [h p.1 (List.fst_mem_of_mem_zipIdx hp)] at hm
  cases hm

theorem forall₂_set {α β : Type} {R : α → β → Prop} {as : List α} {bs : List β} {j : Nat} {a : α} {b : β}
    (h : List.Forall₂ R as bs) (hab : R a b) : List.Forall₂ R (as.set j a) (bs.set j b) := by
  induction h generalizing j with
  | nil => exact .nil
  | cons h hs ih =>
    cases j with
    | zero => exact .cons hab hs
    | succ j => exact .cons h ih

theorem forall₂_peek (h : List.Forall₂ Unread pool outs) : List.Forall₂ Unread (pool.map peek) outs := by
  rw [List.forall₂_map_left_iff]
  exact h.imp fun i out hi => hi.peek.2

theorem Times.set {j : Nat} {x : Frame} {q : List Frame} (h : Times outs) (hj : outs[j]? = some (x :: q)) :
    Times (outs.set j q) := by
  intro out ho y hy
  rcases List.mem_or_eq_of_mem_set ho with ho | rfl
  · exact h out ho y hy
  · exact h (x :: out) (List.mem_of_getElem? hj) y (List.mem_cons_of_mem x hy)

/-- One call takes the head of the merge. -/
theorem seqRead_spec (h : List.Forall₂ Unread pool outs) (ht : Times outs) :
    ∃ outs', (seqRead pool).2 = (merged outs).head?.bind (given (pool.map CReaderInfo.hash)) ∧
      merged outs' = (merged outs).tail ∧ List.Forall₂ Unread (seqRead pool).1 outs' ∧ Times outs' ∧
      (seqRead pool).1.map CReaderInfo.hash = pool.map CReaderInfo.hash := by
  have hpeek := forall₂_peek h
  have hhash : (pool.map peek).map CReaderInfo.hash = pool.map CReaderInfo.hash := by
    rw [List.map_map]
    rfl
  unfold seqRead
  dsimp only
  rw [pick_readers]
  obtain ⟨hn, hempty⟩ | ⟨j, x, hj, hx⟩ := pick_none (n := 0) h ht
  · rw [hn, merged_nil hempty]
    exact ⟨outs, rfl, merged_nil hempty, hpeek, ht, hhash⟩
  · rw [Nat.zero_add] at hj
    obtain ⟨q, hq, hm⟩ := merged_of_earliest hx
    obtain ⟨hlt, hget⟩ := List.getElem?_eq_some_iff.mp hq
    have hlt' : j < (pool.map peek).length := by rw [hpeek.length_eq]; exact hlt
    have hi : Unread (pool.map peek)[j] (x :: q) := hget ▸ hpeek.get hlt' hlt
    have hjhash : (pool.map CReaderInfo.hash)[j]? = some (pool.map peek)[j].hash := by
      rw [← hhash, List.getElem?_map, List.getElem?_eq_getElem hlt']
      rfl
    obtain ⟨hread, hrest⟩ := hi.read
    simp only [hj, List.getElem?_eq_getElem hlt']
    refine ⟨outs.set j q, ?_, by rw [hm, List.tail_cons], forall₂_set hpeek hrest, ht.set hq, ?_⟩
    · rw [hread, hm, List.head?_cons, List.head?_cons, Option.bind_some, given, hjhash]
      rfl
    · rw [← hhash, List.map_set, ← List.getElem_map CReaderInfo.hash (h := by simpa using hlt')]
      exact List.set_getElem_self _

/-- What `n` calls return. -/
def seqReadN (pool : List CReaderInfo) : Nat → List (Option (Frame × Nat × Nat))
  | 0 => []
  | n + 1 => (seqRead pool).2 :: seqReadN (seqRead pool).1 n

theorem seqReadN_merged (h : List.Forall₂ Unread pool outs) (ht : Times outs) (n : Nat) :
    seqReadN pool n = ((merged outs).take n).map (given (pool.map CReaderInfo.hash)) ++
      List.replicate (n - (merged outs).length) none := by
  induction n generalizing pool outs with
  | zero => simp [seqReadN]
  | succ n ih =>
    obtain ⟨outs', h1, h2, h3, h4, h5⟩ := seqRead_spec h ht
    rw [seqReadN, h1, ih h3 h4, h2, h5]
    cases merged outs with
    | nil => simp [List.replicate_succ]
    | cons m ms => simp

theorem framesFrom_sublist (g : PageGroup) (fss : List (List Frame)) (num : Nat) :
    List.Sublist (framesFrom g fss num) fss.flatten := by
  unfold framesFrom
  split
  · exact List.nil_sublist _
  · conv => rhs; rw [← List.take_append_drop (num - g.first) fss, List.flatten_append]
    exact List.sublist_append_right _ _

theorem reads_sublist {g : PageGroup} {fss : List (List Frame)} {r : CRawIOReader} {out : List Frame}
    (h : Reads g fss r out) : List.Sublist out fss.flatten := by
  obtain ⟨k, before, cur, hat, rfl⟩ | ⟨-, rfl⟩ := h
  · obtain ⟨hk, hget⟩ := List.getElem?_eq_some_iff.mp hat.frames
    conv => rhs; rw [← List.take_append_drop k fss, List.flatten_append, List.drop_eq_getElem_cons hk,
      hget, List.flatten_cons, List.append_assoc]
    rw [hat.pageNum, Nat.add_assoc, framesFrom_add]
    exact (List.sublist_append_right _ _).trans (List.sublist_append_right _ _)
  · exact framesFrom_sublist g fss _

/-- **A merge of the readers.** Over pages nobody writes to, with times that do
not decrease in a group, the calls of `seqRead` give what every reader has left:
the earlier first, of equal times that of the earlier reader, each reader in its
own order, with the length and the hash of the reader; and then null. -/
theorem seqReadN_spec {pool : List CReaderInfo} {outs : List (List Frame)}
    (h : List.Forall₂ (fun i out => ∃ fss, i.group.Static fss ∧ Reads i.group fss i.reader out ∧
      fss.flatten.Pairwise (fun a b => a.nano ≤ b.nano) ∧ ∀ f ∈ fss.flatten, f.nano < 2 ^ 63) pool outs) :
    ∃ ms : List (Nat × Frame),
      (∀ n, seqReadN pool n = (ms.take n).map (fun m => (pool[m.1]?).map fun i =>
        (m.2, m.2.data.length, i.hash)) ++ List.replicate (n - ms.length) none) ∧
      ms.Pairwise (fun a b => a.2.nano < b.2.nano ∨ a.2.nano = b.2.nano ∧ a.1 ≤ b.1) ∧
      (∀ m ∈ ms, m.1 < pool.length) ∧
      ∀ i out, outs[i]? = some out → (ms.filter fun m => m.1 = i).map Prod.snd = out := by
  have hunread : List.Forall₂ Unread pool outs := h.imp fun i out ⟨fss, hst, hr, _⟩ => ⟨fss, hst, hr⟩
  have hall : ∀ out ∈ outs, out.Pairwise (fun a b => a.nano ≤ b.nano) ∧ ∀ f ∈ out, f.nano < 2 ^ 63 := by
    intro out ho
    obtain ⟨n, hn, rfl⟩ := List.getElem_of_mem ho
    obtain ⟨fss, -, hr, hs, ht⟩ := h.get (by rw [h.length_eq]; exact hn) hn
    have hsub := reads_sublist hr
    exact ⟨hs.sublist hsub, fun f hf => ht f (hsub.subset hf)⟩
  refine ⟨merged outs, fun n => ?_, mergeAll_stable fun q hq => (hall q hq).1, fun m hm => ?_,
    fun i out ho => filter_mergeAll_tagAll ho⟩
  · have hgiven : (fun m : Nat × Frame => (pool[m.1]?).map fun i => (m.2, m.2.data.length, i.hash)) =
        given (pool.map CReaderInfo.hash) := by
      funext m
      rw [given, List.getElem?_map, Option.map_map]
      rfl
    rw [hgiven]
    exact seqReadN_merged hunread (fun out ho => (hall out ho).2) n
  · obtain ⟨q, hq, hm⟩ := mem_mergeAll.mp hm
    have := (mem_tagAll hq hm).2
    rw [h.length_eq]
    omega

/-- Two readers that have not opened their first page. -/
def twoReaders : List CReaderInfo :=
  [{ group := twoPages, reader := { pageNum := 3 }, hash := 11 },
    { group := twoPages, reader := { pageNum := 3 }, hash := 22 }]

theorem seqReadN_two : ∃ ms : List (Nat × Frame),
    (∀ n, seqReadN twoReaders n = (ms.take n).map (fun m => (twoReaders[m.1]?).map fun i =>
      (m.2, m.2.data.length, i.hash)) ++ List.replicate (n - ms.length) none) ∧
    ms.Pairwise (fun a b => a.2.nano < b.2.nano ∨ a.2.nano = b.2.nano ∧ a.1 ≤ b.1) ∧
    (ms.filter fun m => m.1 = 0).map Prod.snd = [⟨5, [10]⟩, ⟨7, [20]⟩] ∧
    (ms.filter fun m => m.1 = 1).map Prod.snd = [⟨5, [10]⟩, ⟨7, [20]⟩] := by
  have hone : ∃ fss, twoPages.Static fss ∧
      Reads twoPages fss { pageNum := 3 } [⟨5, [10]⟩, ⟨7, [20]⟩] ∧
      fss.flatten.Pairwise (fun a b => a.nano ≤ b.nano) ∧ ∀ f ∈ fss.flatten, f.nano < 2 ^ 63 :=
    ⟨twoFrames, twoPages_static, Or.inr ⟨rfl, by decide⟩, by decide, by decide⟩
  obtain ⟨ms, h1, h2, -, h3⟩ := @seqReadN_spec twoReaders
    [[⟨5, [10]⟩, ⟨7, [20]⟩], [⟨5, [10]⟩, ⟨7, [20]⟩]] (.cons hone (.cons hone .nil))
  exact ⟨ms, h1, h2, h3 0 _ rfl, h3 1 _ rfl⟩

end CReaderPool

end NatFramework.Io
