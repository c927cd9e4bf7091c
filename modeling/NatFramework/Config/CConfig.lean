import Mathlib.Data.Set.Insert
import NatFramework.Lib.CString
import NatFramework.Lib.Text

/-!
# Comments in a configuration

`CConfig::initConfStr` reads a text line by line: it trims the line, cuts a
comment, and takes what is left as a block header, a `key = value` or another
value of the current key. The comment is cut at the *last* `#` of the line, so a
comment that holds a further `#` leaks the part before it into the configuration.

* `cutComment_append`: a comment without `#` is cut off whole.
* `initConfStr_commented`: such comments change neither the result nor the map.
* `initConfStr_comments_iff`: and no others may be allowed.
-/
namespace NatFramework.Config

open Lib Lib.CString

abbrev Str := List Char

/-- `map<string, map<string, vector<string>>>`.
mirrors config/CConfig.h:24-25 -/
abbrev ConfMap := Str → Option (Str → Option (List Str))

/-- `boost::trim` -/
def trim (s : Str) : Str := trimBy isSpace s

/-- What `initConfStr` carries from line to line.
mirrors config/CConfig.h:123-128 -/
structure Scan where
  lineno : Nat := 0
  curBlock : Str := []
  curKey : Str := []
  configMap : ConfMap

/-- `config_map_[cur_block][cur_key].push_back(val)`.
mirrors config/CConfig.h:168-170 -/
def Scan.pushBack (s : Scan) (val : Str) : Scan :=
  let blockmap := (s.configMap s.curBlock).getD fun _ => none
  let values := (blockmap s.curKey).getD []
  let pushed : Str → Option (List Str) := fun k =>
    if k = s.curKey then some (values ++ [val]) else blockmap k
  { s with configMap := fun b => if b = s.curBlock then some pushed else s.configMap b }

/-- A line without its comment.
mirrors config/CConfig.h:134-139 -/
def cutComment (line : Str) : Str :=
  match rfind '#' line with
  | some pos => trim (line.take pos)
  | none => line

/-- A line that is neither empty nor a comment; `none` is the format error.
mirrors config/CConfig.h:142-171 -/
def Scan.content (s : Scan) (line : Str) : Option Scan :=
  if line.head? = some '[' then
    if line.getLast? = some ']' then
      some { s with curBlock := trim ((line.drop 1).take (line.length - 2)) }
    else none
  else match line.findIdx? (· = '=') with
    | some pos =>
      let key := trim (line.take pos)
      let s := if key ≠ [] then { s with curKey := key } else s
      let val := trim (line.drop (pos + 1))
      if val = [] then some s else some (s.pushBack val)
    | none => some (s.pushBack line)

/-- One turn of the loop.
mirrors config/CConfig.h:129-172 -/
def Scan.line (s : Scan) (line : Str) : Option Scan :=
  let s := { s with lineno := s.lineno + 1 }
  if trim line = [] then some s
  else
    let line := cutComment (trim line)
    if line = [] then some s else s.content line

/-- The loop over the lines. With `false` the number of the line is the one of the
message `config format err, line`, and the map keeps what the lines before made. -/
def Scan.lines : Scan → List Str → Bool × Scan
  | s, [] => (true, s)
  | s, l :: ls =>
    match s.line l with
    | some s' => s'.lines ls
    | none => (false, { s with lineno := s.lineno + 1 })

/-- mirrors config/CConfig.h:123-175 -/
def initConfStr (configMap : ConfMap) (configContent : Str) : Bool × Scan :=
  Scan.lines { configMap } (getlines configContent)

/-! ## Comments -/

/-- What stands behind the `#`, to the end of the line. -/
abbrev Comment := { c : Str // '\n' ∉ c }

/-- The lines `L` with comments of `C`: whole lines inserted, comments appended. -/
inductive Commented (C : Set Comment) : List Str → List Str → Prop
  | nil : Commented C [] []
  | keep (l : Str) {L T : List Str} (h : Commented C L T) : Commented C (l :: L) (l :: T)
  | append (l : Str) {c : Comment} (hc : c ∈ C) {L T : List Str} (h : Commented C L T) :
    Commented C (l :: L) ((l ++ '#' :: c.1) :: T)
  | insert {blanks : Str} (hb : ∀ x ∈ blanks, isSpace x) {c : Comment} (hc : c ∈ C)
    {L T : List Str} (h : Commented C L T) : Commented C L ((blanks ++ '#' :: c.1) :: T)

/-- The same result and the same map; the line numbers may differ. -/
def SameConf (r r' : Bool × Scan) : Prop := r.1 = r'.1 ∧ r.2.configMap = r'.2.configMap

/-! ## A comment without `#` is cut off -/

theorem not_mem_rdropWhile {p : Char → Bool} {x : Char} {s : Str} (h : x ∉ s) :
    x ∉ s.rdropWhile p :=
  fun hx => h ((List.rdropWhile_prefix p s).subset hx)

theorem not_mem_trim {x : Char} {s : Str} (h : x ∉ s) : x ∉ trim s :=
  not_mem_rdropWhile fun hx => h ((List.dropWhile_suffix _).subset hx)

theorem cutComment_append {c : Str} (hc : '#' ∉ c) (l : Str) :
    cutComment (trim (l ++ '#' :: c)) = trim l := by
  rw [trim, trimBy_around rfl, cutComment, rfind_append (not_mem_rdropWhile hc)]
  simp only [List.take_left]
  exact trimBy_dropWhile l

theorem cutComment_of_not_mem {l : Str} (hl : '#' ∉ l) : cutComment l = l := by
  rw [cutComment, rfind_eq_none hl]

theorem trim_hash_ne_nil (l c : Str) : trim (l ++ '#' :: c) ≠ [] := by
  rw [trim, trimBy_around rfl]
  simp

theorem line_append {l c : Str} (hl : '#' ∉ l) (hc : '#' ∉ c) (s : Scan) :
    s.line (l ++ '#' :: c) = s.line l := by
  simp only [Scan.line, if_neg (trim_hash_ne_nil l c), cutComment_append hc,
    cutComment_of_not_mem (not_mem_trim hl)]
  split <;> rfl

theorem trim_blanks {blanks : Str} (hb : ∀ x ∈ blanks, isSpace x) : trim blanks = [] := by
  rw [trim, trimBy, List.dropWhile_eq_nil_iff.mpr hb, List.rdropWhile_nil]

theorem line_insert {blanks c : Str} (hb : ∀ x ∈ blanks, isSpace x) (hc : '#' ∉ c) (s : Scan) :
    s.line (blanks ++ '#' :: c) = some { s with lineno := s.lineno + 1 } := by
  have hhash : '#' ∉ blanks := fun hm => by simpa [isSpace] using hb _ hm
  rw [line_append hhash hc]
  simp [Scan.line, trim_blanks hb]

/-! ## Runs -/

theorem content_lineno (s : Scan) (n : Nat) (l : Str) :
    { s with lineno := n }.content l = (s.content l).map fun s' => { s' with lineno := n } := by
  unfold Scan.content Scan.pushBack
  split
  · split <;> rfl
  · cases l.findIdx? (· = '=') with
    | none => rfl
    | some pos =>
      dsimp only
      split <;> split <;> rfl

theorem line_lineno (s : Scan) (n : Nat) (l : Str) :
    { s with lineno := n }.line l = (s.line l).map fun s' => { s' with lineno := n + 1 } := by
  unfold Scan.line
  dsimp only
  split
  · rfl
  · split
    · rfl
    · rw [content_lineno s (n + 1), content_lineno s (s.lineno + 1), Option.map_map]
      rfl

/-- Comments without `#` change neither the result nor the map, from any state of
the loop and whatever the number of the line. -/
theorem lines_commented {C : Set Comment} (hC : ∀ c ∈ C, '#' ∉ c.1) {L T : List Str}
    (h : Commented C L T) (hL : ∀ l ∈ L, '#' ∉ l) (s : Scan) (n : Nat) :
    SameConf (s.lines L) ({ s with lineno := n }.lines T) := by
  have hline : ∀ (l : Str) (L T : List Str) (s : Scan) (n : Nat),
      (∀ (s' : Scan) n, SameConf (s'.lines L) ({ s' with lineno := n }.lines T)) →
      SameConf (s.lines (l :: L)) ({ s with lineno := n }.lines (l :: T)) := by
    intro l L T s n ih
    simp only [Scan.lines, line_lineno s n]
    cases s.line l with
    | none => exact ⟨rfl, rfl⟩
    | some s' => exact ih s' (n + 1)
  induction h generalizing s n with
  | nil => exact ⟨rfl, rfl⟩
  | keep l _ ih =>
    exact hline l _ _ s n (ih fun l hl => hL l (List.mem_cons_of_mem _ hl))
  | append l hc _ ih =>
    have hstep := hline l _ _ s n (ih fun l hl => hL l (List.mem_cons_of_mem _ hl))
    simp only [Scan.lines] at hstep ⊢
    rwa [line_append (hL l (List.mem_cons_self ..)) (hC _ hc)]
  | insert hb hc _ ih =>
    have hskip := ih hL s (n + 1)
    simp only [Scan.lines, line_insert hb (hC _ hc)]
    exact hskip

theorem initConfStr_commented {C : Set Comment} (hC : ∀ c ∈ C, '#' ∉ c.1) {L T : Str}
    (hL : '#' ∉ L) (h : Commented C (getlines L) (getlines T)) (configMap : ConfMap) :
    SameConf (initConfStr configMap L) (initConfStr configMap T) :=
  lines_commented hC h (fun _ hl hm => hL (mem_getlines hl hm)) _ _

/-! ## A comment with `#` leaks -/

/-- What a text of one line `k=w` leaves as the values of `k` outside any block. -/
theorem initConfStr_pair {t w : Str} (ht : '\n' ∉ t) (hne : trim t ≠ [])
    (hcut : cutComment (trim t) = 'k' :: '=' :: w) (hw : trim w ≠ []) :
    (initConfStr (fun _ => none) t).2.configMap [] =
      some fun k => if k = ['k'] then some [trim w] else none := by
  have htext : t ≠ [] := fun h => hne (by rw [h]; rfl)
  have hkey : trim ['k'] = ['k'] := by decide
  simp [initConfStr, getlines_single ht htext, Scan.lines, Scan.line, hne, hcut, Scan.content,
    Scan.pushBack, List.findIdx?_cons, hkey, hw]

/-- The part of a comment before its last `#` stands in the value. -/
theorem cutComment_leak {b : Str} (hb : '#' ∉ b) (a : Str) :
    cutComment (trim ("k=v#".toList ++ (a ++ '#' :: b))) =
      "k=v#".toList ++ a.rdropWhile isSpace := by
  have hsplit := cutComment_append hb ("k=v#".toList ++ a)
  rw [List.append_assoc] at hsplit
  rw [hsplit]
  exact trimBy_around (p := isSpace) (x := '#') rfl "k=v".toList a

theorem initConfStr_leak {a b : Str} (hb : '#' ∉ b)
    (hline : '\n' ∉ "k=v#".toList ++ (a ++ '#' :: b)) :
    (initConfStr (fun _ => none) ("k=v#".toList ++ (a ++ '#' :: b))).2.configMap [] =
      some fun k => if k = ['k'] then some ['v' :: '#' :: a.rdropWhile isSpace] else none := by
  have hvalue : trim ('v' :: '#' :: a.rdropWhile isSpace) =
      'v' :: '#' :: (a.rdropWhile isSpace).rdropWhile isSpace :=
    trimBy_around (p := isSpace) (x := '#') rfl ['v'] (a.rdropWhile isSpace)
  rw [initConfStr_pair (w := 'v' :: '#' :: a.rdropWhile isSpace) hline
    (trim_hash_ne_nil "k=v".toList _) (cutComment_leak hb a) (by rw [hvalue]; simp), hvalue,
    List.rdropWhile_idempotent]

/-- The configurations that may be commented from `C` without harm are all of them
exactly when no comment of `C` holds a further `#`. -/
theorem initConfStr_comments_iff (C : Set Comment) :
    (∀ (configMap : ConfMap) (L T : Str), '#' ∉ L → Commented C (getlines L) (getlines T) →
      SameConf (initConfStr configMap L) (initConfStr configMap T)) ↔ ∀ c ∈ C, '#' ∉ c.1 := by
  constructor
  · intro h c hc hhash
    have htext : '\n' ∉ "k=v#".toList ++ c.1 := by simpa using c.2
    have hlines : Commented C (getlines "k=v".toList) (getlines ("k=v#".toList ++ c.1)) := by
      rw [getlines_single htext (by simp), getlines_single (by decide) (by decide)]
      exact .append _ hc .nil
    obtain ⟨a, b, hab, hb⟩ := exists_last hhash
    -- without the comment `k` has the value `v`, with it a longer one
    have hplain := initConfStr_pair (t := "k=v".toList) (w := ['v']) (by decide) (by decide)
      (by decide) (by decide)
    have hsame := (h (fun _ => none) _ _ (by decide) hlines).2
    rw [hab] at htext hsame
    have hvalue := congrArg (fun m => (m []).map (· ['k'])) hsame
    simp only [hplain, initConfStr_leak hb htext, Option.map_some, if_true] at hvalue
    rw [show trim ['v'] = ['v'] by decide] at hvalue
    simp at hvalue
  · intro h configMap L T hL hT
    exact initConfStr_commented h hL hT configMap

/-- `k=v` commented with `a#b`: the value of `k` is `v#a`. -/
theorem initConfStr_comment_leaks : ∃ (C : Set Comment) (L T : Str), '#' ∉ L ∧
    Commented C (getlines L) (getlines T) ∧
    ¬ SameConf (initConfStr (fun _ => none) L) (initConfStr (fun _ => none) T) := by
  refine ⟨{⟨"a#b".toList, by decide⟩}, "k=v".toList, "k=v#a#b".toList, by decide, ?_, fun h => ?_⟩
  · exact .append "k=v".toList (c := ⟨"a#b".toList, by decide⟩) (Set.mem_singleton _) .nil
  · have hvalue := congrArg (fun m => (m []).map (· ['k'])) h.2
    revert hvalue
    decide

end NatFramework.Config
