import Mathlib.Data.List.Basic
import Mathlib.Data.List.Pairwise
import NatFramework.Lib.Text

/-!
# Log tables

`CLogTable` reads a description line, `# name: column(type) …`, and then lines of
fields separated by `|`, of which it keeps the selected columns. The scanner of a
line steps over the first character of every field without looking at it, so the
separator behind an empty field is taken for the start of a field, which joins the
empty field with the next one.

* `scan_eq_pick`: the scanner picks its columns from the joined fields.
* `pick_of_enough`, `pick_of_short`: what it picks of a list of fields.
* `parseLine_iff`: it takes the fields of the line exactly when the selected ones
  stay in place.
-/
namespace NatFramework.Logdb

open Lib

/-- The characters of a C string, up to its NUL. -/
abbrev Str := List Char

/-- mirrors logdb/CLogTable.h:17-23; `COL_TYPE_UNKNOWN` is the answer for a column
that is not there and no column's type. -/
inductive ColType where
  | COL_TYPE_STRING
  | COL_TYPE_INT
  | COL_TYPE_DOUBLE
  deriving DecidableEq, Repr

/-- The eight bytes of what `strtoll(token, NULL, 0)` and `strtod(token, NULL)` give. -/
structure Conversions where
  strtoll : Str → Str
  strtod : Str → Str

/-- mirrors logdb/CLogTable.h:84-91 -/
structure CLogTable where
  selectColValue : List Str := []
  selectColIdx : List Nat := []
  selectColTypes : List ColType := []
  selectColName : List Str := []
  selectColMap : Str → Option Nat := fun _ => none
  tblName : Str := []
  isAllCols : Bool := true

def isBlank (c : Char) : Bool := c = ' ' || c = '\t'

namespace CLogTable

/-- mirrors logdb/CLogTable.cpp:22-30 -/
def setColFilter (t : CLogTable) (cols : List Str) : CLogTable :=
  { t with selectColMap := fun c => if c ∈ cols then some 0 else none, isAllCols := false }

/-! ## The description -/

/-- mirrors logdb/CLogTable.cpp:75-78 -/
def colType (type : Str) : Option ColType :=
  if type = [] ∨ type = "string".toList then some .COL_TYPE_STRING
  else if type = "int".toList then some .COL_TYPE_INT
  else if type = "double".toList then some .COL_TYPE_DOUBLE
  else none

/-- The type behind the name of a column, and what follows it; `none`: a bracket is
missing.
mirrors logdb/CLogTable.cpp:67-73 -/
def typeToken : Str → Option (Str × Str)
  | '(' :: p =>
    let inside := fun c => !isBlank c && c ≠ ')'
    match p.dropWhile inside with
    | ')' :: rest => some (p.takeWhile inside, rest)
    | _ => none
  | ')' :: _ => none
  | p => some ([], p)

/-- One column of the description, at its name; `none` for the text: not accepted.
mirrors logdb/CLogTable.cpp:56-83 -/
def column (t : CLogTable) (idx : Nat) (c : Char) (cs : Str) : Option Str × CLogTable :=
  let name := fun c => !isBlank c && c ≠ '(' && c ≠ ')'
  let token := c :: cs.takeWhile name
  if t.isAllCols ∨ t.selectColMap token ≠ none then
    let t := { t with
      selectColIdx := t.selectColIdx ++ [idx]
      selectColName := t.selectColName ++ [token]
      selectColMap := fun s => if s = token then some t.selectColName.length else t.selectColMap s }
    match typeToken (cs.dropWhile name) with
    | none => (none, t)
    | some (type, rest) =>
      match colType type with
      | none => (none, t)
      | some ty => (some rest, { t with selectColTypes := t.selectColTypes ++ [ty] })
  else (some (cs.dropWhile fun c => !isBlank c), t)

theorem typeToken_length {p type rest : Str} (h : typeToken p = some (type, rest)) :
    rest.length ≤ p.length := by
  unfold typeToken at h
  split at h
  · rename_i p
    dsimp only at h
    split at h
    · rename_i rest' hrest
      cases h
      have hsuf : ')' :: rest <:+ p := hrest ▸ List.dropWhile_suffix _
      have := hsuf.length_le
      simp only [List.length_cons] at this ⊢
      omega
    · cases h
  · cases h
  · cases h
    exact Nat.le_refl _

theorem column_length {t t' : CLogTable} {idx : Nat} {c : Char} {cs rest : Str}
    (h : t.column idx c cs = (some rest, t')) : rest.length ≤ cs.length := by
  unfold column at h
  dsimp only at h
  split at h
  · split at h
    · cases h
    · rename_i type rest' htype
      split at h
      · cases h
      · cases h
        exact Nat.le_trans (typeToken_length htype) (List.dropWhile_suffix _).length_le
  · cases h
    exact (List.dropWhile_suffix _).length_le

/-- The loop of `parseDescInfo`, with `pos` tokens read.
mirrors logdb/CLogTable.cpp:35-88 -/
def descLoop (t : CLogTable) (pos : Nat) (p : Str) : Bool × CLogTable :=
  match _hp : p.dropWhile isBlank with
  | [] => (decide (2 < pos), t)
  | c :: cs =>
    if pos = 0 then if c = '#' then descLoop t 1 cs else (false, t)
    else if pos = 1 then
      let token := c :: cs.takeWhile fun c => !isBlank c
      let t := { t with tblName := t.tblName ++ token }
      if token.getLast? = some ':' then
        let t := { t with tblName := t.tblName.dropLast }
        if t.tblName = [] then (false, t)
        else descLoop t 2 (cs.dropWhile fun c => !isBlank c)
      else (false, t)
    else
      match hcol : t.column (pos - 2) c cs with
      | (none, t) => (false, t)
      | (some rest, t) => descLoop t (pos + 1) rest
termination_by p.length
decreasing_by
  all_goals
    have hsuf : c :: cs <:+ p := _hp ▸ List.dropWhile_suffix _
    have hlen := hsuf.length_le
    simp only [List.length_cons] at hlen
  · omega
  · have := (List.dropWhile_suffix (fun c => !isBlank c) (l := cs)).length_le
    omega
  · have := column_length hcol
    omega

/-- mirrors logdb/CLogTable.cpp:32-88 -/
def parseDescInfo (t : CLogTable) (p : Str) : Bool × CLogTable := t.descLoop 0 p

/-! ## A line -/

/-- `select_col_value_.emplace_back` for a token of a column's type.
mirrors logdb/CLogTable.cpp:108-125 -/
def typed (conv : Conversions) : ColType → Str → Str
  | .COL_TYPE_STRING, token => token
  | .COL_TYPE_INT, token => conv.strtoll token
  | .COL_TYPE_DOUBLE, token => conv.strtod token

/-- `if(*p == '|') p++` -/
def skipBar : Str → Str
  | '|' :: p => p
  | p => p

theorem skipBar_length (p : Str) : (skipBar p).length ≤ p.length := by
  unfold skipBar
  split
  · simp
  · exact Nat.le_refl _

/-- The loop of `parseLine`: what it returns, `idx_pos`, and `select_col_value_`.
mirrors logdb/CLogTable.cpp:99-137 -/
def scan (t : CLogTable) (conv : Conversions) (idxPos pos : Nat) (values : List Str) :
    Str → Bool × Nat × List Str
  | [] => (false, idxPos, values)
  | c :: cs =>
    -- `*++p` leaves the first character unread
    let token := c :: cs.takeWhile (· ≠ '|')
    let rest := cs.dropWhile (· ≠ '|')
    if t.selectColIdx[idxPos]? = some pos then
      let values := values ++ [typed conv (t.selectColTypes.getD idxPos .COL_TYPE_STRING) token]
      if idxPos + 1 = t.selectColIdx.length then (true, idxPos + 1, values)
      else scan t conv (idxPos + 1) (pos + 1) values (skipBar rest)
    else scan t conv idxPos (pos + 1) values (skipBar rest)
termination_by p => p.length
decreasing_by
  all_goals
    have := skipBar_length (cs.dropWhile (· ≠ '|'))
    have := (List.dropWhile_suffix (· ≠ '|') (l := cs)).length_le
    simp only [List.length_cons]
    omega

/-- mirrors logdb/CLogTable.cpp:91-143 -/
def parseLine (t : CLogTable) (conv : Conversions) (p : Str) : Bool × CLogTable :=
  if t.selectColIdx = [] then (false, t)
  else
    let (ok, idxPos, values) := t.scan conv 0 0 t.selectColValue (p.dropWhile isBlank)
    if ok then (true, { t with selectColValue := values })
    else (false, { t with selectColValue := values.take (values.length - idxPos) })

/-! ## The fields of a line -/

/-- The fields behind the blanks that follow the table name. -/
def fields (p : Str) : List Str := (p.dropWhile isBlank).splitOn '|'

/-- The fields with every empty one joined to the next by the separator; an empty
last field is dropped. -/
def joined : List Str → List Str
  | [] => []
  | [f] => if f = [] then [] else [f]
  | [] :: g :: fs => ('|' :: g) :: joined fs
  | (c :: f) :: g :: fs => (c :: f) :: joined (g :: fs)

/-- The scanner's token at the head of a line that is not empty. -/
theorem joined_cons (c : Char) (cs : Str) : joined ((c :: cs).splitOn '|') =
    (c :: cs.takeWhile (· ≠ '|')) :: joined ((skipBar (cs.dropWhile (· ≠ '|'))).splitOn '|') := by
  rw [List.splitOn_cons_eq_if_modifyHead, splitOn_eq '|' cs]
  have hbar : ∀ x r, cs.dropWhile (· ≠ '|') = x :: r → x = '|' := fun x r h => by
    have hhead := List.head_dropWhile_not (· ≠ '|') (l := cs) (by rw [h]; simp)
    simp only [h, List.head_cons] at hhead
    simpa using hhead
  cases hd : cs.dropWhile (· ≠ '|') with
  | nil => by_cases hc : c = '|' <;> simp [hc, joined, skipBar]
  | cons x r =>
    obtain rfl := hbar x r hd
    by_cases hc : c = '|'
    · simp [hc, joined, skipBar]
    · -- the field is not empty, and more fields follow
      obtain ⟨g, fs, hr⟩ := List.exists_cons_of_ne_nil (List.splitOn_ne_nil '|' r)
      simp [hc, joined, skipBar, hr]

/-- The fields do not get more by joining. -/
theorem length_joined_le : ∀ fs : List Str, (joined fs).length ≤ fs.length
  | [] => Nat.le_refl _
  | [f] => by
    unfold joined
    split <;> simp
  | [] :: g :: fs => by
    have := length_joined_le fs
    simp only [joined, List.length_cons]
    omega
  | (c :: f) :: g :: fs => by
    have := length_joined_le (g :: fs)
    simp only [joined, List.length_cons] at this ⊢
    omega

/-! ## Picking columns -/

abbrev Column := Nat × ColType

/-- The selected columns. -/
def columns (t : CLogTable) : List Column := t.selectColIdx.zip t.selectColTypes

/-- What a scan of the tokens from column `pos` on finds of the columns `cols`:
whether all of them, and the values. -/
def pick (conv : Conversions) : List Column → Nat → List Str → Bool × List Str
  | _, _, [] => (false, [])
  | [], _, _ => (false, [])
  | (i, ty) :: cols, pos, token :: tokens =>
    if i = pos then
      if cols = [] then (true, [typed conv ty token])
      else
        let r := pick conv cols (pos + 1) tokens
        (r.1, typed conv ty token :: r.2)
    else pick conv ((i, ty) :: cols) (pos + 1) tokens

variable {t : CLogTable} {conv : Conversions}

/-- The scanner picks its columns from the joined fields. -/
theorem scan_eq_pick (hlen : t.selectColTypes.length = t.selectColIdx.length) (n : Nat) :
    ∀ (p : Str), p.length ≤ n → ∀ (idxPos pos : Nat) (values : List Str),
      idxPos < t.selectColIdx.length →
      t.scan conv idxPos pos values p =
        let r := pick conv (t.columns.drop idxPos) pos (joined (p.splitOn '|'))
        (r.1, idxPos + r.2.length, values ++ r.2) := by
  induction n with
  | zero =>
    intro p hp idxPos pos values _
    rw [List.length_eq_zero_iff.mp (Nat.le_zero.mp hp)]
    simp [scan, joined, pick]
  | succ n ih =>
    intro p hp idxPos pos values hidx
    cases p with
    | nil => simp [scan, joined, pick]
    | cons c cs =>
      have hrest : (skipBar (cs.dropWhile (· ≠ '|'))).length ≤ n := by
        have := skipBar_length (cs.dropWhile (· ≠ '|'))
        have := (List.dropWhile_suffix (· ≠ '|') (l := cs)).length_le
        simp only [List.length_cons] at hp
        omega
      have hcol : t.columns.drop idxPos =
          (t.selectColIdx[idxPos], t.selectColTypes[idxPos]) :: t.columns.drop (idxPos + 1) := by
        rw [List.drop_eq_getElem_cons (by simp [columns, hlen, hidx])]
        simp [columns]
      have hlast : t.columns.drop (idxPos + 1) = [] ↔ idxPos + 1 = t.selectColIdx.length := by
        simp only [List.drop_eq_nil_iff, columns, List.length_zip, hlen]
        omega
      have hget : t.selectColIdx[idxPos]? = some pos ↔ t.selectColIdx[idxPos] = pos := by
        rw [List.getElem?_eq_getElem hidx, Option.some.injEq]
      rw [scan, joined_cons, hcol, pick]
      by_cases hpos : t.selectColIdx[idxPos] = pos
      · have hty : t.selectColTypes.getD idxPos .COL_TYPE_STRING = t.selectColTypes[idxPos] := by
          rw [List.getD_eq_getElem?_getD, List.getElem?_eq_getElem (by omega), Option.getD_some]
        simp only [hget, if_pos hpos, hty, hlast]
        by_cases hend : idxPos + 1 = t.selectColIdx.length
        · simp only [if_pos hend, List.length_singleton]
        · simp only [if_neg hend]
          rw [ih _ hrest _ _ _ (by omega)]
          simp [Nat.add_assoc, Nat.add_comm 1]
      · simp only [hget, if_neg hpos]
        rw [ih _ hrest _ _ _ hidx, hcol]

/-- Tokens that reach every column: the values are theirs. -/
theorem pick_of_enough {tokens : List Str} : ∀ {cols : List Column} {pos : Nat}, cols ≠ [] →
    (cols.map Prod.fst).Pairwise (· < ·) →
    (∀ col ∈ cols, pos ≤ col.1 ∧ col.1 < pos + tokens.length) →
    pick conv cols pos tokens =
      (true, cols.map fun col => typed conv col.2 (tokens.getD (col.1 - pos) [])) := by
  induction tokens with
  | nil =>
    intro cols pos hne _ hin
    obtain ⟨col, cols, rfl⟩ := List.exists_cons_of_ne_nil hne
    have := hin col (List.mem_cons_self ..)
    simp only [List.length_nil] at this
    omega
  | cons token tokens ih =>
    intro cols pos hne hsorted hin
    obtain ⟨⟨i, ty⟩, cols, rfl⟩ := List.exists_cons_of_ne_nil hne
    rw [List.map_cons, List.pairwise_cons] at hsorted
    have hgt : ∀ col ∈ cols, i < col.1 := fun col hcol => hsorted.1 _ (List.mem_map_of_mem hcol)
    have hhead := hin (i, ty) (List.mem_cons_self ..)
    simp only [List.length_cons] at hin hhead
    -- one token on, the columns are one nearer
    have hshift : ∀ col : Column, pos < col.1 →
        (token :: tokens).getD (col.1 - pos) [] = tokens.getD (col.1 - (pos + 1)) [] := by
      intro col hlt
      rw [show col.1 - pos = col.1 - (pos + 1) + 1 by omega, List.getD_cons_succ]
    rw [pick]
    by_cases hi : i = pos
    · subst hi
      rw [if_pos rfl, List.map_cons, Nat.sub_self, List.getD_cons_zero]
      by_cases hcols : cols = []
      · simp [hcols]
      · rw [if_neg hcols, ih hcols hsorted.2 fun col hcol => ⟨hgt col hcol, by
          have := hin col (List.mem_cons_of_mem _ hcol)
          omega⟩]
        exact congrArg (fun vs => (true, typed conv ty token :: vs))
          (List.map_congr_left fun col hcol => by rw [hshift col (hgt col hcol)])
    · have hpos : ∀ col ∈ (i, ty) :: cols, pos < col.1 := by
        intro col hcol
        rcases List.mem_cons.mp hcol with rfl | hcol
        · exact Nat.lt_of_le_of_ne hhead.1 (Ne.symm hi)
        · exact Nat.lt_of_le_of_lt hhead.1 (hgt col hcol)
      rw [if_neg hi, ih hne (List.pairwise_cons.mpr hsorted) fun col hcol => ⟨hpos col hcol, by
        have := hin col hcol
        omega⟩]
      exact congrArg (Prod.mk true)
        (List.map_congr_left fun col hcol => by rw [hshift col (hpos col hcol)])

/-- Tokens that end before one of the columns. -/
theorem pick_of_short {tokens : List Str} : ∀ {cols : List Column} {pos : Nat},
    (∃ col ∈ cols, pos + tokens.length ≤ col.1) → (pick conv cols pos tokens).1 = false := by
  induction tokens with
  | nil => intros; rfl
  | cons token tokens ih =>
    rintro cols pos ⟨col, hcol, hle⟩
    rw [List.length_cons] at hle
    cases cols with
    | nil => simp at hcol
    | cons first cols =>
      obtain ⟨i, ty⟩ := first
      rw [pick]
      by_cases hi : i = pos
      · have hrest : col ∈ cols := by
          rcases List.mem_cons.mp hcol with rfl | h
          · simp only at hle
            omega
          · exact h
        rw [if_pos hi, if_neg (List.ne_nil_of_mem hrest)]
        exact ih ⟨col, hrest, by omega⟩
      · rw [if_neg hi]
        exact ih ⟨col, hcol, by omega⟩

/-! ## What a description leaves -/

/-- Every selected column has its type, and they stand in order, before column `n`. -/
structure Described (t : CLogTable) (n : Nat) : Prop where
  types : t.selectColTypes.length = t.selectColIdx.length
  sorted : t.selectColIdx.Pairwise (· < ·)
  lt : ∀ i ∈ t.selectColIdx, i < n

theorem Described.column {n : Nat} (h : Described t n) {c : Char} {cs rest : Str} {t' : CLogTable}
    (hcol : t.column n c cs = (some rest, t')) : Described t' (n + 1) := by
  unfold CLogTable.column at hcol
  dsimp only at hcol
  split at hcol
  · split at hcol
    · cases hcol
    · split at hcol
      · cases hcol
      · cases hcol
        refine ⟨?_, ?_, ?_⟩
        · simp only [List.length_append, List.length_singleton, h.types]
        · rw [List.pairwise_append]
          refine ⟨h.sorted, List.pairwise_singleton _ _, fun i hi j hj => ?_⟩
          rw [List.mem_singleton.mp hj]
          exact h.lt i hi
        · intro i hi
          rcases List.mem_append.mp hi with hi | hi
          · exact Nat.lt_succ_of_lt (h.lt i hi)
          · rw [List.mem_singleton.mp hi]
            exact Nat.lt_succ_self n
  · cases hcol
    exact ⟨h.types, h.sorted, fun i hi => Nat.lt_succ_of_lt (h.lt i hi)⟩

theorem described_descLoop (t : CLogTable) (pos : Nat) (p : Str) (h : Described t (pos - 2))
    {t' : CLogTable} (hp : t.descLoop pos p = (true, t')) : ∃ n, Described t' n := by
  fun_induction descLoop t pos p with
  | case1 t pos p _ =>
    obtain rfl := (Prod.mk.inj hp).2
    exact ⟨_, h⟩
  | case2 t p cs _ ih => exact ih h hp
  | case3 => cases hp
  | case4 => cases hp
  | case5 t p c cs _ token t₁ _ t₂ _ _ ih => exact ih ⟨h.types, h.sorted, h.lt⟩ hp
  | case6 => cases hp
  | case7 => cases hp
  | case8 t pos p c cs _ h0 h1 rest t₁ hcol ih =>
    have hnext := h.column hcol
    rw [show pos - 2 + 1 = pos + 1 - 2 by omega] at hnext
    exact ih hnext hp

/-- A table before its description: with a filter, or of all columns. -/
def fresh : Option (List Str) → CLogTable
  | none => {}
  | some cols => setColFilter {} cols

theorem described_of_parse {filter : Option (List Str)} {desc : Str}
    (h : (fresh filter).parseDescInfo desc = (true, t)) : ∃ n, Described t n := by
  refine described_descLoop (fresh filter) 0 desc ?_ h
  cases filter with
  | none => exact ⟨rfl, .nil, by simp [fresh]⟩
  | some cols => exact ⟨rfl, .nil, by simp [fresh, setColFilter]⟩

/-! ## What a line leaves -/

variable {n : Nat}

/-- A line appends what the scan picked of all columns, or nothing. -/
theorem parseLine_eq (h : Described t n) (conv : Conversions) (p : Str) : t.parseLine conv p =
    if t.selectColIdx = [] then (false, t)
    else
      let r := pick conv t.columns 0 (joined (fields p))
      if r.1 then (true, { t with selectColValue := t.selectColValue ++ r.2 }) else (false, t) := by
  unfold parseLine
  by_cases hidx : t.selectColIdx = []
  · rw [if_pos hidx, if_pos hidx]
  · rw [if_neg hidx, if_neg hidx, scan_eq_pick h.types _ _ (Nat.le_refl _) _ _ _
      (List.length_pos_iff.mpr hidx)]
    simp only [List.drop_zero, fields, Nat.zero_add, List.length_append, Nat.add_sub_cancel,
      List.take_left]
    rfl

theorem columns_ne_nil (h : Described t n) (hidx : t.selectColIdx ≠ []) : t.columns ≠ [] := by
  rw [← List.length_pos_iff] at hidx ⊢
  simp only [columns, List.length_zip, h.types]
  omega

theorem map_fst_columns (h : Described t n) : t.columns.map Prod.fst = t.selectColIdx :=
  List.map_fst_zip (by rw [h.types])

theorem exists_column (h : Described t n) {i : Nat} (hi : i ∈ t.selectColIdx) :
    ∃ col ∈ t.columns, col.1 = i := by
  rw [← map_fst_columns h] at hi
  exact List.mem_map.mp hi

theorem column_idx (h : Described t n) {col : Column} (hcol : col ∈ t.columns) :
    col.1 ∈ t.selectColIdx :=
  map_fst_columns h ▸ List.mem_map_of_mem hcol

/-- The line has a field for every selected column. -/
def Enough (sel : List Nat) (fs : List Str) : Prop := sel ≠ [] ∧ ∀ i ∈ sel, i < fs.length

instance (sel : List Nat) (fs : List Str) : Decidable (Enough sel fs) :=
  inferInstanceAs (Decidable (_ ∧ _))

/-- The typed values of the selected fields. -/
def selected (t : CLogTable) (conv : Conversions) (fs : List Str) : List Str :=
  t.columns.map fun col => typed conv col.2 (fs.getD col.1 [])

/-- With enough fields a line appends the typed values of the selected ones and the
parser says true; with fewer it says false and leaves the table. -/
def Parses (t : CLogTable) (conv : Conversions) (p : Str) : Prop :=
  t.parseLine conv p =
    if Enough t.selectColIdx (fields p) then
      (true, { t with selectColValue := t.selectColValue ++ t.selected conv (fields p) })
    else (false, t)

/-- The selected fields are where they were when every empty field has been joined
to the next one. -/
def InPlace (sel : List Nat) (fs : List Str) : Prop := ∀ i ∈ sel, (joined fs)[i]? = fs[i]?

theorem pick_columns (h : Described t n) {tokens : List Str}
    (henough : Enough t.selectColIdx tokens) :
    pick conv t.columns 0 tokens = (true, t.selected conv tokens) := by
  rw [pick_of_enough (columns_ne_nil h henough.1) (map_fst_columns h ▸ h.sorted)
    fun col hcol => ⟨Nat.zero_le _, by
      rw [Nat.zero_add]
      exact henough.2 _ (column_idx h hcol)⟩]
  rfl

/-- The line parsed as if its fields were the joined ones. -/
theorem parseLine_of_joined (h : Described t n) (conv : Conversions) (p : Str) :
    t.parseLine conv p =
      if Enough t.selectColIdx (joined (fields p)) then
        (true, { t with selectColValue := t.selectColValue ++ t.selected conv (joined (fields p)) })
      else (false, t) := by
  rw [parseLine_eq h]
  by_cases hidx : t.selectColIdx = []
  · rw [if_pos hidx, if_neg fun henough => henough.1 hidx]
  · rw [if_neg hidx]
    by_cases henough : Enough t.selectColIdx (joined (fields p))
    · rw [pick_columns h henough, if_pos henough]
      rfl
    · obtain ⟨i, hi, hle⟩ : ∃ i ∈ t.selectColIdx, (joined (fields p)).length ≤ i := by
        by_contra hall
        push Not at hall
        exact henough ⟨hidx, hall⟩
      obtain ⟨col, hcol, rfl⟩ := exists_column h hi
      have hshort : (pick conv t.columns 0 (joined (fields p))).1 = false :=
        pick_of_short ⟨col, hcol, by rwa [Nat.zero_add]⟩
      rw [if_neg henough]
      simp only [hshort]
      rfl

theorem parses_of_inPlace (h : Described t n) {p : Str}
    (hplace : Enough t.selectColIdx (fields p) → InPlace t.selectColIdx (fields p))
    (conv : Conversions) : Parses t conv p := by
  rw [Parses, parseLine_of_joined h]
  by_cases henough : Enough t.selectColIdx (fields p)
  · have hin := hplace henough
    have hjoined : Enough t.selectColIdx (joined (fields p)) := ⟨henough.1, fun i hi => by
      have hsome := List.getElem?_eq_getElem (henough.2 i hi)
      rw [← hin i hi] at hsome
      exact (List.getElem?_eq_some_iff.mp hsome).1⟩
    have hvalues : t.selected conv (joined (fields p)) = t.selected conv (fields p) :=
      List.map_congr_left fun col hcol => by
        rw [List.getD_eq_getElem?_getD, hin col.1 (column_idx h hcol), List.getD_eq_getElem?_getD]
    rw [if_pos henough, if_pos hjoined, hvalues]
  · rw [if_neg henough, if_neg fun hjoined => henough ⟨hjoined.1, fun i hi =>
      Nat.lt_of_lt_of_le (hjoined.2 i hi) (length_joined_le _)⟩]

/-- Conversions that keep the text tell where a value comes from. -/
def keepText : Conversions := ⟨id, id⟩

theorem typed_keepText (ty : ColType) (token : Str) : typed keepText ty token = token := by
  cases ty <;> rfl

theorem inPlace_of_parses (h : Described t n) {p : Str} (hparses : Parses t keepText p)
    (henough : Enough t.selectColIdx (fields p)) : InPlace t.selectColIdx (fields p) := by
  rw [Parses, parseLine_of_joined h, if_pos henough] at hparses
  by_cases hjoined : Enough t.selectColIdx (joined (fields p))
  · rw [if_pos hjoined] at hparses
    have hvalues := List.append_cancel_left (congrArg selectColValue (Prod.mk.inj hparses).2)
    intro i hi
    obtain ⟨col, hcol, rfl⟩ := exists_column h hi
    have hvalue := List.map_inj_left.mp hvalues col hcol
    rw [typed_keepText, typed_keepText, List.getD_eq_getElem?_getD, List.getD_eq_getElem?_getD,
      List.getElem?_eq_getElem (hjoined.2 _ hi), List.getElem?_eq_getElem (henough.2 _ hi)]
      at hvalue
    rw [List.getElem?_eq_getElem (hjoined.2 _ hi), List.getElem?_eq_getElem (henough.2 _ hi)]
    exact congrArg some hvalue
  · rw [if_neg hjoined] at hparses
    exact absurd (Prod.mk.inj hparses).1 (by simp)

/-- Whatever the conversions are: a line of a described table is parsed right
exactly when, if it has enough fields, joining the empty ones leaves the selected
ones in place. `values` is what the lines before left. -/
theorem parseLine_iff {filter : Option (List Str)} {desc : Str}
    (h : (fresh filter).parseDescInfo desc = (true, t)) (values : List Str) (p : Str) :
    (∀ conv, Parses { t with selectColValue := values } conv p) ↔
      (Enough t.selectColIdx (fields p) → InPlace t.selectColIdx (fields p)) := by
  obtain ⟨n, hdesc⟩ := described_of_parse h
  have hvalues : Described { t with selectColValue := values } n :=
    ⟨hdesc.types, hdesc.sorted, hdesc.lt⟩
  exact ⟨fun hparses => inPlace_of_parses hvalues (hparses keepText),
    fun hplace => parses_of_inPlace hvalues hplace⟩

/-- The table of the description `#T: a b`. -/
def twoColumns : CLogTable := ((fresh none).parseDescInfo "#T: a b".toList).2

theorem parse_twoColumns : (fresh none).parseDescInfo "#T: a b".toList = (true, twoColumns) :=
  Prod.ext (by decide +kernel) rfl

theorem parseLine_iff_full :
    Parses { twoColumns with selectColValue := [] } keepText "x|y".toList :=
  (parseLine_iff parse_twoColumns [] "x|y".toList).mpr (fun _ _ _ => rfl) keepText

/-- The second field of `x||y` is empty, and the parser takes `|y` for it. -/
theorem parseLine_empty_field :
    ∃ conv, ¬ Parses { twoColumns with selectColValue := [] } conv "x||y".toList := by
  refine ⟨keepText, fun hparses => ?_⟩
  have hvalues := congrArg (fun r => r.2.selectColValue) hparses
  revert hvalues
  decide +kernel

end CLogTable

end NatFramework.Logdb
