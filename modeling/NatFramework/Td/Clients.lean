import Mathlib.Logic.Function.Basic
import Mathlib.Tactic.IntervalCases
import NatFramework.Lib.Lists
import NatFramework.Lib.Run

/-!
# The clients of a trader engine

A helper has its orders on pages of its own and asks the engine, over the system pages,
to read them. The engine has one reader for the system pages and one for each client,
looks at one after the other and takes what is earliest. Helpers and engine come and go,
and write in between; pages are logs here, and clients stand for their names.

* `World.next`: what a client, and the engine's loop, do to the pages.
* `Inv`, `Inv.next`: what a step keeps.
* `promised_kept`: no order is treated twice, and what a client sends that the engine
  has answered is not lost, nor when the client leaves.
-/
namespace NatFramework.Td.Clients

open Lib

/-- What stands on the system pages and is for the engine or by it. `ack a life`
answers the message at `a`.
mirrors include/IOCommon.h:14-65 -/
inductive SysWord where
  | add (c : Nat)
  | remove (c : Nat)
  | ack (a life : Nat)
  | other

/-- A helper: whether `_init` has come to its end, the message it waits for an answer
to, and the life of the engine that has answered it.
mirrors td/CTDHelperComm.h:20-66 -/
structure Client where
  up : Bool := false
  asked : Option Nat := none
  since : Option Nat := none

inductive Source where
  | system
  | client (c : Nat)

/-- The loop of `seqRead`: the clients whose readers have not been looked at, and
`min_nano` with `cur_reader`. -/
structure Scan where
  left : List Nat
  best : Option (Nat × Source)

/-- `read_pool_` is the system's reader and those of `pool`, in this order. `owes` is the
message that is being answered. -/
structure Engine where
  up : Bool := false
  life : Nat := 0
  sysPos : Nat := 0
  pool : List Nat := []
  pos : Nat → Nat := fun _ => 0
  scan : Option Scan := none
  owes : Option Nat := none

/-- Of an order there is the time of its frame. `handled` are the orders that the engine
has treated, by client and place; `promised` those that were sent by a client with an
answer, with the life of the engine that gave it. -/
structure World where
  sys : List (Nat × SysWord) := []
  orders : Nat → List Nat := fun _ => []
  clients : Nat → Client := fun _ => {}
  engine : Engine := {}
  handled : List (Nat × Nat) := []
  promised : List (Nat × Nat × Nat) := []

inductive Turn where
  | ask (c nano : Nat)
  | hear (c i : Nat)
  | timeout (c : Nat)
  | send (c nano : Nat)
  | leave (c nano : Nat)
  | crash (c : Nat)
  | other (nano : Nat)
  | start
  | stop
  | peek
  | fetch
  | ack (nano : Nat)

namespace World

variable (hash : Nat → Nat)

/-- mirrors io/CReaderPool.h:82-87 -/
def better (best : Option (Nat × Source)) (src : Source) : Option Nat → Option (Nat × Source)
  | none => best
  | some nano =>
    match best with
    | some (minNano, cur) => if nano < minNano then some (nano, src) else some (minNano, cur)
    | none => some (nano, src)

/-- No name has the hash 0 of the system's reader.
mirrors io/CReaderPool.h:35-42 -/
def hasHash (pool : List Nat) (c : Nat) : Bool := pool.any fun c' => hash c' = hash c

/-- The reader of `add` is made with `from_page = -1`: it stands behind the last frame.
mirrors io/CReaderPool.h:46-52 -/
def add (s : World) (c : Nat) : World :=
  if hasHash hash s.engine.pool c then s
  else { s with engine := { s.engine with
    pool := s.engine.pool ++ [c]
    pos := Function.update s.engine.pos c (s.orders c).length } }

@[simp] theorem add_sys (s : World) (c : Nat) : (s.add hash c).sys = s.sys := by
  unfold add
  split <;> rfl

@[simp] theorem add_sysPos (s : World) (c : Nat) : (s.add hash c).engine.sysPos = s.engine.sysPos := by
  unfold add
  split <;> rfl

@[simp] theorem add_scan (s : World) (c : Nat) : (s.add hash c).engine.scan = s.engine.scan := by
  unfold add
  split <;> rfl

/-- mirrors io/CReaderPool.h:98-105 -/
def erase (s : World) (c : Nat) : World :=
  { s with engine := { s.engine with pool := s.engine.pool.eraseP fun c' => hash c' = hash c } }

/-- The message at the system's reader is answered next. -/
def owe (s : World) : World :=
  { s with engine := { s.engine with owes := some s.engine.sysPos } }

def advance (s : World) : World :=
  { s with engine := { s.engine with sysPos := s.engine.sysPos + 1 } }

def idle (s : World) : World := { s with engine := { s.engine with scan := none } }

/-- The message at the system's reader.
mirrors td/ITDEngine.cpp:215-232 -/
def treat (s : World) : World :=
  match (s.sys[s.engine.sysPos]?).map Prod.snd with
  | some (.add c) => (s.add hash c).owe
  | some (.remove c) => s.erase hash c
  | _ => s

/-- The order at the reader of a client. -/
def take (s : World) (c : Nat) : World :=
  { s with
    engine := { s.engine with pos := Function.update s.engine.pos c (s.engine.pos c + 1) }
    handled := s.handled ++ [(c, s.engine.pos c)] }

def setClient (s : World) (c : Nat) (cl : Client) : World :=
  { s with clients := Function.update s.clients c cl }

def setScan (s : World) (scan : Scan) : World :=
  { s with engine := { s.engine with scan := some scan } }

def post (s : World) (nano : Nat) (w : SysWord) : World := { s with sys := s.sys ++ [(nano, w)] }

/-- mirrors td/CTDHelperComm.cpp:24-172, td/ITDEngine.cpp:193-226 and io/CReaderPool.h:78-94 -/
def next (s : World) : Turn → World
  | .ask c nano =>
    let cl := s.clients c
    (s.post nano (.add c)).setClient c { cl with asked := some s.sys.length }
  | .hear c i =>
    match s.sys[i]? with
    | some (_, .ack _ life) => s.setClient c { up := true, asked := none, since := some life }
    | _ => s
  | .timeout c =>
    let cl := s.clients c
    s.setClient c { cl with asked := none }
  | .send c nano =>
    { s with
      orders := Function.update s.orders c (s.orders c ++ [nano])
      promised := s.promised ++
        (s.clients c).since.toList.map fun life => (c, (s.orders c).length, life) }
  | .leave c nano => (s.setClient c {}).post nano (.remove c)
  | .crash c => s.setClient c {}
  | .other nano => s.post nano .other
  | .start =>
    { s with engine := { s.engine with
      up := true, life := s.engine.life + 1, sysPos := s.sys.length, pool := [],
      scan := none, owes := none } }
  | .stop => { s with engine := { s.engine with up := false, scan := none, owes := none } }
  | .peek =>
    match s.engine.scan with
    | none =>
      s.setScan ⟨s.engine.pool, better none .system ((s.sys[s.engine.sysPos]?).map Prod.fst)⟩
    | some ⟨c :: left, best⟩ =>
      s.setScan ⟨left, better best (.client c) (s.orders c)[s.engine.pos c]?⟩
    | some ⟨[], _⟩ => s
  | .fetch =>
    match s.engine.scan with
    | some ⟨[], none⟩ => s.idle
    | some ⟨[], some (_, .client c)⟩ => s.idle.take c
    | some ⟨[], some (_, .system)⟩ => (s.idle.treat hash).advance
    | _ => s
  | .ack nano =>
    match s.engine.owes with
    | some a =>
      let s' := s.post nano (.ack a s.engine.life)
      { s' with engine := { s.engine with owes := none } }
    | none => s

/-- A helper sends when it is made and does not wait for an answer; one that goes and
writes so does not wait either. An engine begins its loop when it has answered. -/
def Able (s : World) : Turn → Prop
  | .ask c _ => (s.clients c).asked = none
  | .hear c i => ∃ a t life, (s.clients c).asked = some a ∧ s.sys[i]? = some (t, .ack a life)
  | .timeout c => (s.clients c).asked.isSome = true
  | .send c _ => (s.clients c).up = true ∧ (s.clients c).asked = none
  | .leave c _ => (s.clients c).asked = none
  | .crash _ => True
  | .other _ => True
  | .start => s.engine.up = false
  | .stop => s.engine.up = true
  | .peek => s.engine.up = true ∧ s.engine.owes = none
  | .fetch => ∃ best, s.engine.scan = some ⟨[], best⟩
  | .ack _ => s.engine.owes.isSome = true

/-- Who goes has a time later than those of its orders. -/
def Later (s : World) : Turn → Prop
  | .leave c nano => ∀ t ∈ s.orders c, t < nano
  | _ => True

end World

def sys (hash : Nat → Nat) : Sys World Turn where
  start s := s = {}
  ok := World.Able
  next := World.next hash

/-! ## The invariant -/

namespace World

variable {hash : Nat → Nat} {s : World}

/-- The engine that lives has answered the message at `a`, or is about to. -/
def Acked (s : World) (a : Nat) : Prop :=
  s.engine.owes = some a ∨ ∃ i t : Nat, s.sys[i]? = some (t, .ack a s.engine.life)

/-- The engine that lives has what the client has sent at `k` behind it or before it. -/
def Has (s : World) (c k : Nat) : Prop :=
  (c, k) ∈ s.handled ∨ (c ∈ s.engine.pool ∧ s.engine.pos c ≤ k)

/-- What is right of the best frame that the loop has found. -/
def Chosen (s : World) (left : List Nat) : Nat × Source → Prop
  | (_, .client c) => c ∈ s.engine.pool ∧ s.engine.pos c < (s.orders c).length
  | (t, .system) => ∃ w, s.sys[s.engine.sysPos]? = some (t, w) ∧
      ∀ c, w = .remove c → c ∈ s.engine.pool → c ∈ left ∨ s.engine.pos c = (s.orders c).length

/-- What is right of a client, from where it has asked. -/
def Asked (s : World) (c a : Nat) : Prop :=
  (∀ b t : Nat, a ≤ b → s.sys[b]? ≠ some (t, .remove c)) ∧
    (∀ t c', s.sys[a]? = some (t, .add c') → c' = c) ∧ a < s.sys.length ∧
    (s.engine.up = true → s.Acked a → c ∈ s.engine.pool)

structure Inv (s : World) : Prop where
  pos_le : ∀ c, s.engine.pos c ≤ (s.orders c).length
  sysPos_le : s.engine.sysPos ≤ s.sys.length
  handled_lt : ∀ c k, (c, k) ∈ s.handled → k < s.engine.pos c
  ordered : s.handled.Pairwise fun x y => x.1 = y.1 → x.2 < y.2
  since : ∀ c life, (s.clients c).since = some life → (s.clients c).up = true ∧
    life ≤ s.engine.life ∧ (s.engine.up = true → life = s.engine.life → c ∈ s.engine.pool)
  promised : ∀ c k life, (c, k, life) ∈ s.promised → k < (s.orders c).length ∧
    life ≤ s.engine.life ∧ (s.engine.up = true → life = s.engine.life → s.Has c k)
  acked : ∀ i t a life : Nat, s.sys[i]? = some (t, .ack a life) → a < s.engine.sysPos ∧ life ≤ s.engine.life
  asked : ∀ c a, (s.clients c).asked = some a → s.Asked c a
  owes : ∀ a, s.engine.owes = some a → a < s.engine.sysPos ∧ s.engine.scan = none
  going : ∀ b t c : Nat, s.engine.sysPos ≤ b → s.sys[b]? = some (t, .remove c) →
    (s.clients c).up = false ∧ ∀ o ∈ s.orders c, o < t
  scan : ∀ sc, s.engine.scan = some sc → (∀ c ∈ sc.left, c ∈ s.engine.pool) ∧
    ∀ best, sc.best = some best → s.Chosen sc.left best

theorem inv_start : Inv {} where
  pos_le _ := Nat.le_refl 0
  sysPos_le := Nat.le_refl 0
  handled_lt _ _ h := by cases h
  ordered := List.Pairwise.nil
  since _ _ h := by cases h
  promised _ _ _ h := by cases h
  acked i _ _ _ h := by simp at h
  asked _ _ h := by cases h
  owes _ h := by cases h
  going b _ _ _ h := by simp at h
  scan _ h := by cases h

/-! ## Steps of the clients -/

/-- A client becomes what fits to the pages and to the engine. -/
theorem Inv.setClient {c : Nat} {cl : Client} (h : s.Inv)
    (hup : cl.up = true → ∀ b t, s.engine.sysPos ≤ b → s.sys[b]? ≠ some (t, .remove c))
    (hsince : ∀ life, cl.since = some life → cl.up = true ∧ life ≤ s.engine.life ∧
      (s.engine.up = true → life = s.engine.life → c ∈ s.engine.pool))
    (hasked : ∀ a, cl.asked = some a → s.Asked c a) : (s.setClient c cl).Inv :=
  { h with
    since := by
      intro c' life hc'
      dsimp only [World.setClient] at hc' ⊢
      rcases eq_or_ne c' c with rfl | hne
      · rw [Function.update_self] at hc' ⊢
        exact hsince life hc'
      · rw [Function.update_of_ne hne] at hc' ⊢
        exact h.since c' life hc'
    asked := by
      intro c' a hc'
      dsimp only [World.setClient] at hc'
      rcases eq_or_ne c' c with rfl | hne
      · rw [Function.update_self] at hc'
        exact hasked a hc'
      · rw [Function.update_of_ne hne] at hc'
        exact h.asked c' a hc'
    going := by
      intro b t c' hb hc'
      obtain ⟨hdown, hlate⟩ := h.going b t c' hb hc'
      refine ⟨?_, hlate⟩
      dsimp only [World.setClient]
      rcases eq_or_ne c' c with rfl | hne
      · rw [Function.update_self]
        cases hcl : cl.up with
        | false => rfl
        | true => exact absurd hc' (hup hcl b t hb)
      · rw [Function.update_of_ne hne]
        exact hdown }

/-- What may be written to the system pages. -/
def Fits (s : World) (t : Nat) : SysWord → Prop
  | .remove c => s.clients c = {} ∧ ∀ o ∈ s.orders c, o < t
  | .ack a life => s.engine.owes = some a ∧ life = s.engine.life
  | _ => True

theorem sys_concat {l : List (Nat × SysWord)} {b t t' : Nat} {w w' : SysWord}
    (h : (l ++ [(t, w)])[b]? = some (t', w')) :
    l[b]? = some (t', w') ∨ b = l.length ∧ t' = t ∧ w' = w := by
  obtain ⟨-, h⟩ | ⟨hb, h⟩ := getElem?_concat_cases h
  · exact Or.inl h
  · exact Or.inr ⟨hb, congrArg Prod.fst h, congrArg Prod.snd h⟩

theorem sys_append {l l' : List (Nat × SysWord)} {b : Nat} {x : Nat × SysWord} (h : l[b]? = some x) :
    (l ++ l')[b]? = some x := by
  rw [List.getElem?_append_left (List.getElem?_eq_some_iff.mp h).1]
  exact h

theorem Inv.post {t : Nat} {w : SysWord} (h : s.Inv) (hw : s.Fits t w) : (s.post t w).Inv :=
  { h with
    sysPos_le := Nat.le_trans h.sysPos_le (by simp [World.post])
    acked := by
      intro i t' a life hi
      rcases sys_concat hi with hi | ⟨-, -, rfl⟩
      · exact h.acked i t' a life hi
      · exact ⟨(h.owes a hw.1).1, Nat.le_of_eq hw.2⟩
    asked := by
      intro c a hc
      obtain ⟨hstays, hadd, hlt, hin⟩ := h.asked c a hc
      refine ⟨fun b t' hb hi => ?_, fun t' c' hi => ?_, Nat.lt_of_lt_of_le hlt (by simp [World.post]),
        fun hup ha => hin hup ?_⟩
      · rcases sys_concat hi with hi | ⟨-, -, rfl⟩
        · exact hstays b t' hb hi
        · have hgone : s.clients c = {} := hw.1
          change (s.clients c).asked = some a at hc
          rw [hgone] at hc
          cases hc
      · rcases sys_concat hi with hi | ⟨heq, -, -⟩
        · exact hadd t' c' hi
        · exact absurd heq (Nat.ne_of_lt hlt)
      · rcases ha with ho | ⟨i, t', hi⟩
        · exact Or.inl ho
        · have hw' : (s.sys ++ [(t, w)])[i]? = some (t', .ack a s.engine.life) := hi
          rcases sys_concat hw' with hi | ⟨-, -, rfl⟩
          · exact Or.inr ⟨i, t', hi⟩
          · exact Or.inl hw.1
    going := by
      intro b t' c hb hi
      rcases sys_concat hi with hi | ⟨-, rfl, rfl⟩
      · exact h.going b t' c hb hi
      · have hgone : s.clients c = {} := hw.1
        exact ⟨by dsimp only [World.post]; rw [hgone], hw.2⟩
    scan := by
      intro sc hsc
      obtain ⟨hleft, hbest⟩ := h.scan sc hsc
      refine ⟨hleft, fun best hb => ?_⟩
      obtain ⟨t', src⟩ := best
      cases src with
      | client c => exact hbest _ hb
      | system =>
        obtain ⟨w', hw', hchosen⟩ := hbest _ hb
        exact ⟨w', sys_append hw', hchosen⟩ }

/-- Who sends has not gone: what is said of those that go does not change. -/
theorem Inv.send {c t : Nat} (h : s.Inv) (hup : (s.clients c).up = true) :
    Inv { s with
      orders := Function.update s.orders c (s.orders c ++ [t])
      promised := s.promised ++
        (s.clients c).since.toList.map fun life => (c, (s.orders c).length, life) } := by
  have hlen : ∀ c', (s.orders c').length ≤ (Function.update s.orders c (s.orders c ++ [t]) c').length := by
    intro c'
    rcases eq_or_ne c' c with rfl | hne
    · rw [Function.update_self, List.length_append]
      exact Nat.le_add_right _ _
    · exact Nat.le_of_eq (by rw [Function.update_of_ne hne])
  have hstays : ∀ b t' : Nat, s.engine.sysPos ≤ b → s.sys[b]? ≠ some (t', .remove c) := by
    intro b t' hb hi
    rw [(h.going b t' c hb hi).1] at hup
    cases hup
  exact
    { h with
      pos_le := fun c' => Nat.le_trans (h.pos_le c') (hlen c')
      promised := by
        intro c' k life hk
        rcases List.mem_append.mp hk with hk | hk
        · obtain ⟨hlt, hrest⟩ := h.promised c' k life hk
          exact ⟨Nat.lt_of_lt_of_le hlt (hlen c'), hrest⟩
        · obtain ⟨life', hlife', heq⟩ := List.mem_map.mp hk
          obtain ⟨rfl, rfl, rfl⟩ : c = c' ∧ (s.orders c).length = k ∧ life' = life := by
            simpa only [Prod.mk.injEq] using heq
          obtain ⟨-, hle, hin⟩ := h.since c life' (Option.mem_toList.mp hlife')
          refine ⟨?_, hle, fun hlives heq => Or.inr ⟨hin hlives heq, h.pos_le c⟩⟩
          dsimp only
          rw [Function.update_self, List.length_append]
          exact Nat.lt_succ_self _
      going := by
        intro b t' c' hb hi
        have hne : c' ≠ c := by
          rintro rfl
          exact hstays b t' hb hi
        dsimp only
        rw [Function.update_of_ne hne]
        exact h.going b t' c' hb hi
      scan := by
        intro sc hsc
        obtain ⟨hleft, hbest⟩ := h.scan sc hsc
        refine ⟨hleft, fun best hb => ?_⟩
        obtain ⟨t', src⟩ := best
        cases src with
        | client c' =>
          obtain ⟨hin, hlt⟩ := hbest _ hb
          exact ⟨hin, Nat.lt_of_lt_of_le hlt (hlen c')⟩
        | system =>
          obtain ⟨w, hw, hchosen⟩ := hbest _ hb
          refine ⟨w, hw, fun c' hc' hin => ?_⟩
          have hne : c' ≠ c := by
            rintro rfl
            exact hstays _ t' (Nat.le_refl _) (hc' ▸ hw)
          dsimp only
          rw [Function.update_of_ne hne]
          exact hchosen c' hc' hin }

/-! ## Steps of the engine -/

theorem Inv.start (h : s.Inv) :
    Inv { s with engine := { s.engine with
      up := true, life := s.engine.life + 1, sysPos := s.sys.length, pool := [],
      scan := none, owes := none } } :=
  { h with
    sysPos_le := Nat.le_refl _
    since := by
      intro c life hc
      obtain ⟨hup, hle, -⟩ := h.since c life hc
      exact ⟨hup, Nat.le_succ_of_le hle, fun _ heq => absurd heq (Nat.ne_of_lt (Nat.lt_succ_of_le hle))⟩
    promised := by
      intro c k life hk
      obtain ⟨hlt, hle, -⟩ := h.promised c k life hk
      exact ⟨hlt, Nat.le_succ_of_le hle, fun _ heq => absurd heq (Nat.ne_of_lt (Nat.lt_succ_of_le hle))⟩
    acked := by
      intro i t a life hi
      obtain ⟨hlt, hle⟩ := h.acked i t a life hi
      exact ⟨Nat.lt_of_lt_of_le hlt h.sysPos_le, Nat.le_succ_of_le hle⟩
    asked := by
      intro c a hc
      obtain ⟨hstays, hadd, hlt, -⟩ := h.asked c a hc
      refine ⟨hstays, hadd, hlt, fun _ ha => ?_⟩
      -- what has been answered has been by an engine before
      rcases ha with ho | ⟨i, t, hi⟩
      · cases ho
      · exact absurd (h.acked i t a _ hi).2 (Nat.not_succ_le_self _)
    owes := fun a ho => by cases ho
    going := by
      intro b t c hb hi
      exact absurd (List.getElem?_eq_some_iff.mp hi).1 (Nat.not_lt.mpr hb)
    scan := fun sc hsc => by cases hsc }

theorem Inv.stop (h : s.Inv) :
    Inv { s with engine := { s.engine with up := false, scan := none, owes := none } } :=
  { h with
    since := fun c life hc => ⟨(h.since c life hc).1, (h.since c life hc).2.1, fun hup => by cases hup⟩
    promised := fun c k life hk =>
      ⟨(h.promised c k life hk).1, (h.promised c k life hk).2.1, fun hup => by cases hup⟩
    asked := by
      intro c a hc
      obtain ⟨hstays, hadd, hlt, -⟩ := h.asked c a hc
      exact ⟨hstays, hadd, hlt, fun hup => by cases hup⟩
    owes := fun a ho => by cases ho
    scan := fun sc hsc => by cases hsc }

theorem Inv.setScan {sc : Scan} (h : s.Inv) (howes : s.engine.owes = none)
    (hleft : ∀ c ∈ sc.left, c ∈ s.engine.pool) (hbest : ∀ best, sc.best = some best → s.Chosen sc.left best) :
    (s.setScan sc).Inv :=
  { h with
    owes := fun a ho => by
      change s.engine.owes = some a at ho
      rw [howes] at ho
      cases ho
    scan := fun sc' hsc => by
      obtain rfl : sc = sc' := Option.some.inj hsc
      exact ⟨hleft, hbest⟩ }

/-- The best is the one before, then nothing new is earlier, or it is new. -/
theorem better_cases {best : Option (Nat × Source)} {src : Source} {p : Option Nat} {b : Nat × Source}
    (h : better best src p = some b) :
    (best = some b ∧ ∀ nano, p = some nano → b.1 ≤ nano) ∨ ∃ nano, p = some nano ∧ b = (nano, src) := by
  cases p with
  | none => exact Or.inl ⟨h, fun nano hn => by cases hn⟩
  | some nano =>
    cases best with
    | none => exact Or.inr ⟨nano, rfl, (Option.some.inj h).symm⟩
    | some m =>
      simp only [better] at h
      split at h
      · exact Or.inr ⟨nano, rfl, (Option.some.inj h).symm⟩
      · rename_i hle
        obtain rfl : m = b := Option.some.inj h
        refine Or.inl ⟨rfl, fun n hn => ?_⟩
        obtain rfl : nano = n := Option.some.inj hn
        exact Nat.le_of_not_lt hle

/-- The message of a client that goes is later than what it has sent. -/
theorem Inv.peek (h : s.Inv) (howes : s.engine.owes = none) : (s.next hash .peek).Inv := by
  cases hscan : s.engine.scan with
  | none =>
    simp only [World.next, hscan]
    refine h.setScan howes (fun c hc => hc) fun best hb => ?_
    rcases better_cases hb with ⟨hb, -⟩ | ⟨nano, hhead, rfl⟩
    · cases hb
    · obtain ⟨x, hx, rfl⟩ := Option.map_eq_some_iff.mp hhead
      exact ⟨x.2, hx, fun c _ hin => Or.inl hin⟩
  | some sc =>
    obtain ⟨left, best⟩ := sc
    obtain ⟨hleft, hbest⟩ := h.scan _ hscan
    cases left with
    | nil =>
      simp only [World.next, hscan]
      exact h
    | cons c left =>
      simp only [World.next, hscan]
      refine h.setScan howes (fun c' hc' => hleft c' (List.mem_cons_of_mem c hc')) fun b hb => ?_
      rcases better_cases hb with ⟨hb, hle⟩ | ⟨nano, hhead, rfl⟩
      · obtain ⟨t, src⟩ := b
        cases src with
        | client c' => exact hbest _ hb
        | system =>
          obtain ⟨w, hw, hchosen⟩ := hbest _ hb
          refine ⟨w, hw, fun c' hgone hin => ?_⟩
          rcases hchosen c' hgone hin with hc' | hend
          · rcases List.mem_cons.mp hc' with rfl | hc'
            · right
              by_contra hne
              have hlt : s.engine.pos c' < (s.orders c').length :=
                Nat.lt_of_le_of_ne (h.pos_le c') hne
              have hearly := (h.going _ t c' (Nat.le_refl _) (hgone ▸ hw)).2 _ (List.getElem_mem hlt)
              exact absurd (hle _ (List.getElem?_eq_getElem hlt)) (Nat.not_le.mpr hearly)
            · exact Or.inl hc'
          · exact Or.inr hend
      · exact ⟨hleft c List.mem_cons_self, (List.getElem?_eq_some_iff.mp hhead).1⟩

theorem Inv.take {c : Nat} (h : s.Inv) (hscan : s.engine.scan = none) (hin : c ∈ s.engine.pool)
    (hlt : s.engine.pos c < (s.orders c).length) : (s.take c).Inv :=
  { h with
    pos_le := by
      intro c'
      dsimp only [World.take]
      rcases eq_or_ne c' c with rfl | hne
      · rw [Function.update_self]
        exact hlt
      · rw [Function.update_of_ne hne]
        exact h.pos_le c'
    handled_lt := by
      intro c' k hk
      dsimp only [World.take] at hk ⊢
      rcases List.mem_append.mp hk with hk | hk
      · have hold := h.handled_lt c' k hk
        rcases eq_or_ne c' c with rfl | hne
        · rw [Function.update_self]
          exact Nat.lt_succ_of_lt hold
        · rw [Function.update_of_ne hne]
          exact hold
      · obtain ⟨rfl, rfl⟩ := Prod.mk.inj (List.mem_singleton.mp hk)
        rw [Function.update_self]
        exact Nat.lt_succ_self _
    ordered := by
      refine List.pairwise_append.mpr ⟨h.ordered, List.pairwise_singleton _ _, fun x hx y hy heq => ?_⟩
      obtain rfl := List.mem_singleton.mp hy
      obtain ⟨c', k⟩ := x
      obtain rfl : c' = c := heq
      exact h.handled_lt c' k hx
    promised := by
      intro c' k life hk
      obtain ⟨hk', hle, hhas⟩ := h.promised c' k life hk
      refine ⟨hk', hle, fun hup heq => ?_⟩
      rcases hhas hup heq with hdone | ⟨hpool, hpos⟩
      · exact Or.inl (List.mem_append_left _ hdone)
      · rcases eq_or_ne c' c with rfl | hne
        · rcases Nat.eq_or_lt_of_le hpos with rfl | hpos
          · exact Or.inl (List.mem_append_right _ List.mem_cons_self)
          · refine Or.inr ⟨hpool, ?_⟩
            dsimp only [World.take]
            rw [Function.update_self]
            exact hpos
        · refine Or.inr ⟨hpool, ?_⟩
          dsimp only [World.take]
          rw [Function.update_of_ne hne]
          exact hpos
    scan := fun sc hsc => by
      change s.engine.scan = some sc at hsc
      rw [hscan] at hsc
      cases hsc }

theorem Inv.idle (h : s.Inv) : s.idle.Inv :=
  { h with
    owes := fun a ho => ⟨(h.owes a ho).1, rfl⟩
    scan := fun sc hsc => by cases hsc }

theorem Inv.advance (h : s.Inv) (hscan : s.engine.scan = none) (hlt : s.engine.sysPos < s.sys.length) :
    s.advance.Inv :=
  { h with
    sysPos_le := hlt
    acked := fun i t a life hi => ⟨Nat.lt_succ_of_lt (h.acked i t a life hi).1, (h.acked i t a life hi).2⟩
    owes := fun a ho => ⟨Nat.lt_succ_of_lt (h.owes a ho).1, hscan⟩
    going := fun b t c hb hi => h.going b t c (Nat.le_of_succ_le hb) hi
    scan := fun sc hsc => by
      change s.engine.scan = some sc at hsc
      rw [hscan] at hsc
      cases hsc }

/-- The message at the system's reader is a client's that has its reader. -/
theorem Inv.owe {t c : Nat} (h : s.Inv) (hscan : s.engine.scan = none)
    (hw : s.sys[s.engine.sysPos]? = some (t, .add c)) (hin : c ∈ s.engine.pool) : s.owe.advance.Inv :=
  { h.advance hscan (List.getElem?_eq_some_iff.mp hw).1 with
    asked := by
      intro c' a hc
      obtain ⟨hstays, hadd, halt, hpool⟩ := h.asked c' a hc
      refine ⟨hstays, hadd, halt, fun hup ha => ?_⟩
      rcases ha with ho | ha
      · obtain rfl : s.engine.sysPos = a := Option.some.inj ho
        rw [← hadd t c hw]
        exact hin
      · exact hpool hup (Or.inr ha)
    owes := by
      intro a ho
      obtain rfl : s.engine.sysPos = a := Option.some.inj ho
      exact ⟨Nat.lt_succ_self _, hscan⟩ }

theorem hasHash_eq_true {pool : List Nat} {c : Nat} (hinj : Function.Injective hash) :
    hasHash hash pool c = true ↔ c ∈ pool := by
  simp only [hasHash, List.any_eq_true, decide_eq_true_eq]
  constructor
  · rintro ⟨c', hc', heq⟩
    rwa [← hinj heq]
  · exact fun hc => ⟨c, hc, rfl⟩

/-- A client that is added has nothing left to read. -/
theorem Inv.add {c : Nat} (hinj : Function.Injective hash) (h : s.Inv) (hscan : s.engine.scan = none) :
    (s.add hash c).Inv ∧ c ∈ (s.add hash c).engine.pool := by
  unfold World.add
  split
  · rename_i hhas
    exact ⟨h, (hasHash_eq_true hinj).mp hhas⟩
  · rename_i hhas
    have hnew : c ∉ s.engine.pool := fun hc => hhas ((hasHash_eq_true hinj).mpr hc)
    refine ⟨?_, List.mem_append_right _ List.mem_cons_self⟩
    exact
      { h with
        pos_le := by
          intro c'
          dsimp only
          rcases eq_or_ne c' c with rfl | hne
          · exact Nat.le_of_eq (by rw [Function.update_self])
          · rw [Function.update_of_ne hne]
            exact h.pos_le c'
        handled_lt := by
          intro c' k hk
          dsimp only
          rcases eq_or_ne c' c with rfl | hne
          · rw [Function.update_self]
            exact Nat.lt_of_lt_of_le (h.handled_lt c' k hk) (h.pos_le c')
          · rw [Function.update_of_ne hne]
            exact h.handled_lt c' k hk
        since := by
          intro c' life hc'
          obtain ⟨hup, hle, hin⟩ := h.since c' life hc'
          exact ⟨hup, hle, fun hlives heq => List.mem_append_left _ (hin hlives heq)⟩
        promised := by
          intro c' k life hk
          obtain ⟨hlt, hle, hhas⟩ := h.promised c' k life hk
          refine ⟨hlt, hle, fun hlives heq => ?_⟩
          rcases hhas hlives heq with hdone | ⟨hin, hpos⟩
          · exact Or.inl hdone
          · have hne : c' ≠ c := fun heq => hnew (heq ▸ hin)
            refine Or.inr ⟨List.mem_append_left _ hin, ?_⟩
            dsimp only
            rw [Function.update_of_ne hne]
            exact hpos
        asked := by
          intro c' a hc'
          obtain ⟨hstays, hadd, halt, hin⟩ := h.asked c' a hc'
          exact ⟨hstays, hadd, halt, fun hlives ha => List.mem_append_left _ (hin hlives ha)⟩
        scan := fun sc hsc => by
          change s.engine.scan = some sc at hsc
          rw [hscan] at hsc
          cases hsc }

/-- A client that has gone leaves nothing unread behind. -/
theorem Inv.erase {t c : Nat} (hinj : Function.Injective hash) (h : s.Inv) (hscan : s.engine.scan = none)
    (howes : s.engine.owes = none) (hw : s.sys[s.engine.sysPos]? = some (t, .remove c))
    (hdone : c ∈ s.engine.pool → s.engine.pos c = (s.orders c).length) : (s.erase hash c).Inv := by
  have hother : ∀ c', c' ≠ c → c' ∈ s.engine.pool → c' ∈ (s.erase hash c).engine.pool := by
    intro c' hne hin
    refine (List.mem_eraseP_of_neg ?_).mpr hin
    simpa using fun heq => hne (hinj heq)
  exact
    { h with
      since := by
        intro c' life hc'
        obtain ⟨hup, hle, hin⟩ := h.since c' life hc'
        have hne : c' ≠ c := by
          rintro rfl
          rw [(h.going _ t c' (Nat.le_refl _) hw).1] at hup
          cases hup
        exact ⟨hup, hle, fun hlives heq => hother c' hne (hin hlives heq)⟩
      promised := by
        intro c' k life hk
        obtain ⟨hlt, hle, hhas⟩ := h.promised c' k life hk
        refine ⟨hlt, hle, fun hlives heq => ?_⟩
        rcases hhas hlives heq with hd | ⟨hin, hpos⟩
        · exact Or.inl hd
        · have hne : c' ≠ c := by
            rintro rfl
            exact Nat.not_lt.mpr hpos (hdone hin ▸ hlt)
          exact Or.inr ⟨hother c' hne hin, hpos⟩
      asked := by
        intro c' a hc'
        obtain ⟨hstays, hadd, halt, hin⟩ := h.asked c' a hc'
        refine ⟨hstays, hadd, halt, fun hlives ha => ?_⟩
        have hne : c' ≠ c := by
          rintro rfl
          -- what has been answered is in front of the reader
          rcases ha with ho | ⟨i, t', hi⟩
          · change s.engine.owes = some a at ho
            rw [howes] at ho
            cases ho
          · exact hstays _ t (Nat.le_of_lt (h.acked i t' a _ hi).1) hw
        exact hother c' hne (hin hlives ha)
      scan := fun sc hsc => by
        change s.engine.scan = some sc at hsc
        rw [hscan] at hsc
        cases hsc }

/-- The frame that the loop has found is read. -/
theorem Inv.fetch {best : Option (Nat × Source)} (hinj : Function.Injective hash) (h : s.Inv)
    (hscan : s.engine.scan = some ⟨[], best⟩) : (s.next hash .fetch).Inv := by
  obtain ⟨-, hbest⟩ := h.scan _ hscan
  have howes : s.engine.owes = none := by
    cases ho : s.engine.owes with
    | none => rfl
    | some a =>
      rw [(h.owes a ho).2] at hscan
      cases hscan
  have hidle := h.idle
  cases best with
  | none =>
    simp only [World.next, hscan]
    exact hidle
  | some b =>
    obtain ⟨t, src⟩ := b
    cases src with
    | client c =>
      obtain ⟨hin, hlt⟩ := hbest _ rfl
      simp only [World.next, hscan]
      exact hidle.take rfl hin hlt
    | system =>
      obtain ⟨w, hw, hdone⟩ := hbest _ rfl
      have hw' : s.idle.sys[s.idle.engine.sysPos]? = some (t, w) := hw
      have hlt := (List.getElem?_eq_some_iff.mp hw').1
      simp only [World.next, hscan, treat, hw', Option.map_some]
      cases w with
      | add c =>
        obtain ⟨hadd, hin⟩ := hidle.add (c := c) hinj rfl
        exact hadd.owe (t := t) (c := c) (by simp [World.idle]) (by simpa using hw') hin
      | remove c =>
        have hread : c ∈ s.engine.pool → s.engine.pos c = (s.orders c).length := by
          intro hin
          rcases hdone c rfl hin with hnil | hend
          · cases hnil
          · exact hend
        exact (hidle.erase hinj rfl howes hw hread).advance rfl hlt
      | ack a life => exact hidle.advance rfl hlt
      | other => exact hidle.advance rfl hlt

/-- What is asked now has no answer yet. -/
theorem Inv.ask {c t : Nat} (h : s.Inv) : (s.next hash (.ask c t)).Inv := by
  have hpost : (s.post t (.add c)).Inv := h.post trivial
  refine hpost.setClient ?_ (fun life => hpost.since c life) ?_
  · intro hup b t' hb hi
    cases hup.symm.trans (hpost.going b t' c hb hi).1
  · intro a ha
    obtain rfl : s.sys.length = a := Option.some.inj ha
    refine ⟨fun b t' hb hi => ?_, fun t' c' hi => ?_, by simp [World.post], fun _ hacked => ?_⟩
    · rcases sys_concat hi with hi | ⟨-, -, hw⟩
      · exact absurd (List.getElem?_eq_some_iff.mp hi).1 (Nat.not_lt.mpr hb)
      · cases hw
    · rcases sys_concat hi with hi | ⟨-, -, hw⟩
      · exact absurd (List.getElem?_eq_some_iff.mp hi).1 (Nat.lt_irrefl _)
      · exact SysWord.add.inj hw
    · rcases hacked with ho | ⟨i, t', hi⟩
      · exact absurd (hpost.owes _ ho).1 (Nat.not_lt.mpr h.sysPos_le)
      · exact absurd (hpost.acked i t' _ _ hi).1 (Nat.not_lt.mpr h.sysPos_le)

/-- A client with the answer of the engine that lives has its reader. -/
theorem Inv.hear {c i : Nat} (h : s.Inv) (hable : s.Able (.hear c i)) : (s.next hash (.hear c i)).Inv := by
  obtain ⟨a, t, life, hasked, hi⟩ := hable
  obtain ⟨hstays, -, -, hin⟩ := h.asked c a hasked
  obtain ⟨hlt, hle⟩ := h.acked i t a life hi
  simp only [World.next, hi]
  refine h.setClient (fun _ b t' hb => hstays b t' (Nat.le_trans (Nat.le_of_lt hlt) hb)) ?_ nofun
  intro life' hlife
  obtain rfl : life = life' := Option.some.inj hlife
  exact ⟨rfl, hle, fun hup heq => hin hup (Or.inr ⟨i, t, heq ▸ hi⟩)⟩

theorem Inv.ack {t : Nat} (h : s.Inv) : (s.next hash (.ack t)).Inv := by
  cases howes : s.engine.owes with
  | none =>
    simp only [World.next, howes]
    exact h
  | some a =>
    simp only [World.next, howes]
    have hpost : (s.post t (.ack a s.engine.life)).Inv := h.post ⟨howes, rfl⟩
    exact
      { hpost with
        asked := by
          intro c a' hc
          obtain ⟨hstays, hadd, hlt, hin⟩ := hpost.asked c a' hc
          refine ⟨hstays, hadd, hlt, fun hup hacked => hin hup ?_⟩
          rcases hacked with ho | hacked
          · cases ho
          · exact Or.inr hacked
        owes := fun a ho => by cases ho }

theorem Inv.next {e : Turn} (hinj : Function.Injective hash) (h : s.Inv) (hable : s.Able e)
    (hlater : s.Later e) : (s.next hash e).Inv := by
  cases e with
  | ask c t => exact h.ask
  | hear c i => exact h.hear hable
  | timeout c =>
    refine h.setClient ?_ (fun life => h.since c life) nofun
    intro hup b t hb hi
    rw [(h.going b t c hb hi).1] at hup
    cases hup
  | send c t => exact h.send hable.1
  | leave c t =>
    have hgone : (s.setClient c {}).Inv := h.setClient nofun nofun nofun
    refine hgone.post ⟨?_, hlater⟩
    dsimp only [World.setClient]
    rw [Function.update_self]
  | crash c => exact h.setClient nofun nofun nofun
  | other t => exact h.post trivial
  | start => exact h.start
  | stop => exact h.stop
  | peek => exact h.peek hable.2
  | fetch =>
    obtain ⟨best, hscan⟩ := hable
    exact h.fetch hinj hscan
  | ack t => exact h.ack

end World

variable {hash : Nat → Nat} {s : World} {es : List Turn}

theorem inv_run (hinj : Function.Injective hash) (h0 : (sys hash).start s) (ha : (sys hash).Admits s es)
    (hlater : AtEach (fun pre e => ((sys hash).exec s pre).Later e) es) : ((sys hash).exec s es).Inv := by
  refine (sys hash).invariant_atEach (fun s e h hable hl => h.next hinj hable hl) s es ?_ ha hlater
  rw [show s = {} from h0]
  exact World.inv_start

/-- **No order of a client is lost, and none is treated twice.** Helpers and engines come,
go, crash and come back, and write between any two looks of the engine at its readers. The
orders of a client are treated in the order in which it has sent them, each at most once.
One that it sends with the answer of an engine has been treated by it, or is before the reader
which the engine keeps for the client, for as long as this engine runs: also when the client
has gone, since it has sent what it sends before it says so. -/
theorem promised_kept (hinj : Function.Injective hash) (h0 : (sys hash).start s)
    (ha : (sys hash).Admits s es)
    (hlater : AtEach (fun pre e => ((sys hash).exec s pre).Later e) es) :
    (((sys hash).exec s es).handled.Pairwise fun x y => x.1 = y.1 → x.2 < y.2) ∧
      ∀ c k life, (c, k, life) ∈ ((sys hash).exec s es).promised → ((sys hash).exec s es).engine.up = true →
        life = ((sys hash).exec s es).engine.life → ((sys hash).exec s es).Has c k := by
  have hinv := inv_run hinj h0 ha hlater
  exact ⟨hinv.ordered, fun c k life hk => (hinv.promised c k life hk).2.2⟩

/-- A helper is answered, sends an order and goes; the engine finds all of it. -/
def visit : List Turn :=
  [.start, .ask 3 1, .peek, .fetch, .ack 2, .hear 3 1, .send 3 10, .leave 3 12, .peek, .peek, .fetch,
    .peek, .peek, .fetch, .peek, .peek, .fetch]

theorem promised_kept_visit : ((sys id).exec {} visit).Has 3 0 ∧ ((sys id).exec {} visit).engine.pool = [] := by
  have hadm : (sys id).Admits {} visit :=
    ⟨rfl, rfl, ⟨rfl, rfl⟩, ⟨_, rfl⟩, rfl, ⟨0, 2, 1, rfl, rfl⟩, ⟨rfl, rfl⟩, rfl, ⟨rfl, rfl⟩,
      ⟨rfl, rfl⟩, ⟨_, rfl⟩, ⟨rfl, rfl⟩, ⟨rfl, rfl⟩, ⟨_, rfl⟩, ⟨rfl, rfl⟩, ⟨rfl, rfl⟩, ⟨_, rfl⟩, trivial⟩
  refine ⟨(promised_kept Function.injective_id rfl hadm ?_).2 3 0 1 (by decide) rfl rfl, rfl⟩
  rw [atEach_iff_getElem]
  intro i hi
  change i < 17 at hi
  rcases eq_or_ne i 7 with rfl | h7
  · intro t ht
    obtain rfl : t = 10 := List.mem_singleton.mp ht
    decide
  · interval_cases i
    all_goals first | exact absurd rfl h7 | trivial

end NatFramework.Td.Clients
