import Mathlib.Data.List.TakeWhile

/-!
# Command lines

`splitCmdLine` cuts a line at its blanks, but for those between quotes, and keeps the
quotes; `joinCmdVector` puts the words behind a place together again. The client splits
the line of a command, sends the end of it joined, and the server splits that.

* `Reaches`: where the scanner stands behind what it has read of a word.
* `split_join`: the server has the words of the client.
-/
namespace NatFramework.Utility

def quotes : List UInt8 := [0x22, 0x27]

/-- `isblank` -/
def blanks : List UInt8 := [0x20, 0x09]

def backslash : UInt8 := 0x5c

/-- `leftBracket` is the quote that is open, `para` the word so far.
mirrors utility/utils.cpp:57-97 -/
def splitLoop (leftBracket : Option UInt8) (para : List UInt8) : List UInt8 → List (List UInt8)
  | [] => if para = [] then [] else [para]
  | b :: p =>
    match leftBracket with
    | some q =>
      if b = backslash then
        match p with
        | [] => splitLoop (some q) (para ++ [b]) []
        | b' :: p' => splitLoop (some q) (para ++ [b, b']) p'
      else if b = q then splitLoop none (para ++ [b]) p
      else splitLoop (some q) (para ++ [b]) p
    | none =>
      if b ∈ quotes then splitLoop (some b) (para ++ [b]) p
      else if b ∈ blanks then if para = [] then splitLoop none [] p else para :: splitLoop none [] p
      else splitLoop none (para ++ [b]) p

/-- mirrors utility/utils.cpp:52-102 -/
def splitCmdLine (cmd : List UInt8) : List (List UInt8) := splitLoop none [] (cmd.takeWhile (· ≠ 0))

/-- mirrors utility/utils.cpp:104-114 -/
def joinCmdVector (cmd : List (List UInt8)) (delimiter : List UInt8) (startPos : Nat) : List UInt8 :=
  match cmd.drop startPos with
  | [] => []
  | c :: cs => cs.foldl (fun res c => res ++ delimiter ++ c) c

def space : List UInt8 := [0x20]

variable {q : Option UInt8} {para p t : List UInt8} {ts : List (List UInt8)} {b : UInt8}

/-! ## Words -/

/-- Read from its first byte, `para` leaves the scanner with `para` and the quote `q`. -/
def Reaches (q : Option UInt8) (para : List UInt8) : Prop :=
  ∀ p, splitLoop none [] (para ++ p) = splitLoop q para p

/-- The line's only word. -/
def Whole (t : List UInt8) : Prop := splitLoop none [] t = [t]

/-- A word with a blank behind it. -/
def Closed (t : List UInt8) : Prop := ∀ p, splitLoop none [] (t ++ 0x20 :: p) = t :: splitLoop none [] p

/-- The last one may have a quote that is open. -/
def Words : List (List UInt8) → Prop
  | [] => True
  | [t] => Whole t
  | t :: t' :: ts => Closed t ∧ Words (t' :: ts)

theorem Reaches.step (h : Reaches q para) {q' : Option UInt8} {l : List UInt8}
    (hstep : ∀ p, splitLoop q para (l ++ p) = splitLoop q' (para ++ l) p) : Reaches q' (para ++ l) := by
  intro p
  rw [List.append_assoc, h, hstep]

theorem Reaches.whole (h : Reaches q para) (hne : para ≠ []) : Whole para := by
  have hend := h []
  rw [List.append_nil, splitLoop, if_neg hne] at hend
  exact hend

theorem Reaches.closed (h : Reaches none para) (hne : para ≠ []) : Closed para := by
  intro p
  rw [h, splitLoop, if_neg (by decide), if_pos (by decide), if_neg hne]

theorem Words.cons (hw : Whole t) (hc : Closed t) (h : Words ts) : Words (t :: ts) := by
  cases ts with
  | nil => exact hw
  | cons t' ts => exact ⟨hc, h⟩

theorem Words.tail (h : Words (t :: ts)) : Words ts := by
  cases ts with
  | nil => trivial
  | cons t' ts => exact h.2

theorem Words.drop (h : Words ts) (k : Nat) : Words (ts.drop k) := by
  induction k generalizing ts with
  | zero => exact h
  | succ k ih =>
    cases ts with
    | nil => exact h
    | cons t ts => exact ih h.tail

/-- The cases are those of the scanner: a byte is added to the word, or the word ends. -/
theorem words_splitLoop (h : Reaches q para) (p : List UInt8) : Words (splitLoop q para p) := by
  induction q, para, p using splitLoop.induct with
  | case1 q => trivial
  | case2 q para hne =>
    rw [splitLoop, if_neg hne]
    exact h.whole hne
  | case3 para q ih =>
    -- a backslash at the end has nothing to keep from ending the word
    have hend : splitLoop (some q) para [backslash] = [para ++ [backslash]] := by
      simp [splitLoop]
    rw [hend]
    exact (h [backslash]).trans hend
  | case4 para q b' p' ih =>
    have hstep : ∀ p, splitLoop (some q) para ([backslash, b'] ++ p) =
        splitLoop (some q) (para ++ [backslash, b']) p := fun p => by simp [splitLoop]
    exact (hstep p').symm ▸ ih (h.step hstep)
  | case5 para p' q hb ih =>
    have hstep : ∀ p, splitLoop (some q) para ([q] ++ p) = splitLoop none (para ++ [q]) p :=
      fun p => by cases p <;> simp [splitLoop, hb]
    exact (hstep p').symm ▸ ih (h.step hstep)
  | case6 para b p' q hb hq ih =>
    have hstep : ∀ p, splitLoop (some q) para ([b] ++ p) = splitLoop (some q) (para ++ [b]) p :=
      fun p => by cases p <;> simp [splitLoop, hb, hq]
    exact (hstep p').symm ▸ ih (h.step hstep)
  | case7 para b p' hb ih =>
    have hstep : ∀ p, splitLoop none para ([b] ++ p) = splitLoop (some b) (para ++ [b]) p :=
      fun p => by simp [splitLoop, hb]
    exact (hstep p').symm ▸ ih (h.step hstep)
  | case8 b p' hb hblank ih =>
    have hskip : splitLoop none [] (b :: p') = splitLoop none [] p' := by simp [splitLoop, hb, hblank]
    exact hskip.symm ▸ ih h
  | case9 para b p' hb hblank hne ih =>
    have hcut : splitLoop none para (b :: p') = para :: splitLoop none [] p' := by
      simp [splitLoop, hb, hblank, hne]
    rw [hcut]
    exact (ih fun p => rfl).cons (h.whole hne) (h.closed hne)
  | case10 para b p' hb hblank ih =>
    have hstep : ∀ p, splitLoop none para ([b] ++ p) = splitLoop none (para ++ [b]) p :=
      fun p => by simp [splitLoop, hb, hblank]
    exact (hstep p').symm ▸ ih (h.step hstep)

/-- The words have bytes of the line, and no others. -/
theorem flatten_splitLoop (q : Option UInt8) (para p : List UInt8) :
    (splitLoop q para p).flatten.Sublist (para ++ p) := by
  induction q, para, p using splitLoop.induct with
  | case1 q => exact List.nil_sublist _
  | case2 q para hne => simp [splitLoop, hne]
  | case3 para q ih => simp [splitLoop]
  | case4 para q b' p' ih => simpa [splitLoop] using ih
  | case5 para p' q hb ih =>
    have hstep : splitLoop (some q) para (q :: p') = splitLoop none (para ++ [q]) p' := by
      cases p' <;> simp [splitLoop, hb]
    rw [hstep]
    simpa using ih
  | case6 para b p' q hb hq ih =>
    have hstep : splitLoop (some q) para (b :: p') = splitLoop (some q) (para ++ [b]) p' := by
      cases p' <;> simp [splitLoop, hb, hq]
    rw [hstep]
    simpa using ih
  | case7 para b p' hb ih => simpa [splitLoop, hb] using ih
  | case8 b p' hb hblank ih => simpa [splitLoop, hb, hblank] using ih.cons b
  | case9 para b p' hb hblank hne ih =>
    simpa [splitLoop, hb, hblank, hne] using (List.Sublist.refl para).append (ih.cons b)
  | case10 para b p' hb hblank ih => simpa [splitLoop, hb, hblank] using ih

/-! ## Joined -/

theorem words_splitCmdLine (cmd : List UInt8) : Words (splitCmdLine cmd) :=
  words_splitLoop (fun _ => rfl) _

theorem foldl_join (c : List UInt8) (cs : List (List UInt8)) :
    cs.foldl (fun res c => res ++ space ++ c) c = c ++ cs.flatMap fun c => space ++ c := by
  induction cs generalizing c with
  | nil => simp
  | cons c' cs ih => rw [List.foldl_cons, ih, List.flatMap_cons, List.append_assoc, List.append_assoc,
      List.append_assoc]

theorem splitLoop_join (h : Words ts) : splitLoop none [] (joinCmdVector ts space 0) = ts := by
  rw [joinCmdVector, List.drop_zero]
  induction ts with
  | nil => rfl
  | cons t ts ih =>
    cases ts with
    | nil => exact h
    | cons t' ts =>
      have hrest := ih h.2
      dsimp only at hrest ⊢
      rw [foldl_join] at hrest ⊢
      rw [List.flatMap_cons, List.append_assoc]
      exact (h.1 _).trans (congrArg (t :: ·) hrest)

theorem join_drop (ts : List (List UInt8)) (k : Nat) :
    joinCmdVector ts space k = joinCmdVector (ts.drop k) space 0 := by
  rw [joinCmdVector, joinCmdVector, List.drop_zero]

theorem takeWhile_join (h : ∀ t ∈ ts, 0 ∉ t) :
    (joinCmdVector ts space 0).takeWhile (· ≠ 0) = joinCmdVector ts space 0 := by
  have hbytes : ∀ b ∈ joinCmdVector ts space 0, b ≠ 0 := by
    rw [joinCmdVector, List.drop_zero]
    cases ts with
    | nil => exact fun b hb => by cases hb
    | cons t ts =>
      rintro b hb rfl
      dsimp only at hb
      rw [foldl_join, List.mem_append, List.mem_flatMap] at hb
      rcases hb with hb | ⟨t', ht', hb⟩
      · exact h t List.mem_cons_self hb
      · exact h t' (List.mem_cons_of_mem t ht') (by simpa [space] using hb)
  exact List.takeWhile_eq_self_iff.mpr fun b hb => decide_eq_true (hbytes b hb)

/-- **The words survive the way.** What is joined behind a place of a line that has been
split, is split into the words that stand there. -/
theorem split_join (line : List UInt8) (k : Nat) :
    splitCmdLine (joinCmdVector (splitCmdLine line) space k) = (splitCmdLine line).drop k := by
  have hbytes : ∀ t ∈ (splitCmdLine line).drop k, 0 ∉ t := by
    intro t ht h0
    have hmem := (flatten_splitLoop none [] _).subset (List.mem_flatten_of_mem (List.mem_of_mem_drop ht) h0)
    have hall := List.all_eq_true.mp List.all_takeWhile (0 : UInt8) hmem
    exact of_decide_eq_true hall rfl
  rw [join_drop, splitCmdLine, takeWhile_join hbytes, splitLoop_join ((words_splitCmdLine line).drop k)]

end NatFramework.Utility
