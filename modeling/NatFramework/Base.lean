import Mathlib.Data.Rat.Defs
import NatFramework.Lib.Flags
import NatFramework.Lib.NodeMap

/-!
# Constants and records shared by the account, risk and td modules

`include/ATConstants.h`, `include/ATStructure.h` and the part of
`common/CTradeBaseInfo.h` the account reads.

* `int` volumes, positions and ids are `Int`, `double` prices and amounts are
  exact rationals; status words and message types are 32-bit words.
* `int dir` and `int off` are enumerations with an `unknown` case for every
  other code, so that the `default` branches of the switches stay.
* `TradeBaseInfo` is the table `CTradeBaseInfo::instr_info_` together with the
  name hash (`INSTR_NAME_TO_HASH`), of which only what filling the table by
  `info.instr_hash = INSTR_NAME_TO_HASH(..)` gives is used: an entry lies under
  the hash of its own name, and a product hash stands for one product name.
-/
namespace NatFramework

open Lib

abbrev Hash := UInt32
abbrev Status := BitVec 32

/-! ## Enumerations -/

/-- mirrors include/ATConstants.h:72-74,379-382 -/
inductive Dir where
  | buy | sell
  | unknown (code : Int)
  deriving DecidableEq, Repr

/-- mirrors include/ATConstants.h:120-136,384-394 -/
inductive Off where
  | opn | close | forceClose | closeToday | closeYesterday | forceOff | localForceClose | non | auto
  | unknown (code : Int)
  deriving DecidableEq, Repr

/-- mirrors include/ATConstants.h:397-415 (`emOrderRtnType`) -/
inductive OrderRtnType where
  | notSet | closed | send | tdSend | cxling | accept | reject | marketAccept | marketReject
  | execution | cancelReject | canceled | err
  deriving DecidableEq, Repr

/-- The `ODS` macro: the bits of a status.
mirrors include/ATConstants.h:397-416 -/
def ods : OrderRtnType → Status
  | .notSet => 0
  | .closed => 1
  | .send => 1 <<< 1
  | .tdSend => 1 <<< 2
  | .cxling => 1 <<< 3
  | .accept => 1 <<< 4
  | .reject => (1 <<< 5) ||| 1
  | .marketAccept => 1 <<< 6
  | .marketReject => (1 <<< 7) ||| 1
  | .execution => 1 <<< 8
  | .cancelReject => 1 <<< 9
  | .canceled => (1 <<< 10) ||| 1
  | .err => (1 <<< 11) ||| 1

/-- `status & ODS(t)` as a condition. -/
abbrev Status.has (s : Status) (t : OrderRtnType) : Bool := hasAny s (ods t)

/-- Every type that ends an order has the `CLOSED` bit, and no other has it. -/
theorem ods_closed_iff (t : OrderRtnType) :
    Status.has (ods t) .closed = true ↔
      t = .closed ∨ t = .reject ∨ t = .marketReject ∨ t = .canceled ∨ t = .err := by
  cases t <;> decide

/-- A status or message type made of `emOrderRtnType` values. -/
def Status.FromTypes (s : Status) : Prop :=
  ∃ ts : List OrderRtnType, s = (ts.map ods).foldr (· ||| ·) 0

theorem Status.fromTypes_ods (t : OrderRtnType) : Status.FromTypes (ods t) := ⟨[t], by simp⟩

/-- The mask of a type that ends an order contains the `CLOSED` bit. -/
theorem Status.has_ending {s : Status} (hs : s.FromTypes) {type : OrderRtnType}
    (h : Status.has (ods type) .closed = true) : s.has type = s.has .closed := by
  obtain ⟨ts, rfl⟩ := hs
  induction ts with
  | nil => simp [Status.has, hasAny]
  | cons t ts ih =>
    have ht : Status.has (ods t) type = Status.has (ods t) .closed := by
      rcases (ods_closed_iff type).mp h with rfl | rfl | rfl | rfl | rfl <;> cases t <;> decide
    simp only [List.map_cons, List.foldr_cons, Status.has, hasAny.or_left] at ih ht ⊢
    rw [ih, ht]

theorem Status.has_canceled {s : Status} (hs : s.FromTypes) : s.has .canceled = s.has .closed :=
  Status.has_ending hs (by decide)

/-! ## Instruments -/

/-- mirrors include/ATStructure.h:246-269 (`tInstrumentInfo`) -/
structure InstrumentInfo where
  instrHash : Hash
  instr : String
  product : String
  productHash : Hash
  volMultiple : Int
  deriving DecidableEq, Repr

/-- mirrors common/CTradeBaseInfo.h:71-77 and td/CTDEngineCtp.cpp:471-482 -/
structure TradeBaseInfo where
  nameHash : String → Hash
  instrInfo : UMap Hash InstrumentInfo
  key_hash : ∀ h i, instrInfo.lookup h = some i →
    nameHash i.instr = h ∧ i.instrHash = h ∧ nameHash i.product = i.productHash
  product_inj : ∀ h h' i i', instrInfo.lookup h = some i → instrInfo.lookup h' = some i' →
    i.productHash = i'.productHash → i.product = i'.product

namespace TradeBaseInfo

/-- `instr_info_.find(hash)`. -/
def find (info : TradeBaseInfo) (h : Hash) : Option InstrumentInfo := info.instrInfo.lookup h

/-- What `ModInstr::init` demands of an instrument (account/ModInstr.cpp:9-12). -/
def VolMultiplesOk (info : TradeBaseInfo) : Prop := ∀ h i, info.find h = some i → 0 ≤ i.volMultiple

theorem nameHash_instr {info : TradeBaseInfo} {h : Hash} {i : InstrumentInfo}
    (hf : info.find h = some i) : info.nameHash i.instr = h := (info.key_hash h i hf).1

theorem instrHash_eq {info : TradeBaseInfo} {h : Hash} {i : InstrumentInfo}
    (hf : info.find h = some i) : i.instrHash = h := (info.key_hash h i hf).2.1

theorem nameHash_product {info : TradeBaseInfo} {h : Hash} {i : InstrumentInfo}
    (hf : info.find h = some i) : info.nameHash i.product = i.productHash := (info.key_hash h i hf).2.2

/-- The contract the account test registers, and a second one of its product.
mirrors testsuite/account/test.cpp:63-71 -/
def rb1810 : InstrumentInfo :=
  { instrHash := 1, instr := "rb1810", product := "rb", productHash := 3, volMultiple := 10 }

def rb1901 : InstrumentInfo :=
  { instrHash := 2, instr := "rb1901", product := "rb", productHash := 3, volMultiple := 10 }

def rbInfo : UMap Hash InstrumentInfo := (AList.insert 1 rb1810 ∅).insert 2 rb1901

theorem rbInfo_cases {h : Hash} {i : InstrumentInfo} (hi : rbInfo.lookup h = some i) :
    h = 2 ∧ i = rb1901 ∨ h = 1 ∧ i = rb1810 := by
  simp only [rbInfo, UMap.lookup_insert_ite, AList.lookup_empty] at hi
  split at hi
  · exact Or.inl ⟨‹_›, by simpa using hi.symm⟩
  · split at hi
    · exact Or.inr ⟨‹_›, by simpa using hi.symm⟩
    · cases hi

/-- The table of the two contracts. -/
def rb : TradeBaseInfo where
  nameHash name := if name = "rb1810" then 1 else if name = "rb1901" then 2 else 3
  instrInfo := rbInfo
  key_hash h i hi := by
    rcases rbInfo_cases hi with ⟨rfl, rfl⟩ | ⟨rfl, rfl⟩ <;> decide
  product_inj h h' i i' hi hi' _ := by
    rcases rbInfo_cases hi with ⟨-, rfl⟩ | ⟨-, rfl⟩ <;>
      rcases rbInfo_cases hi' with ⟨-, rfl⟩ | ⟨-, rfl⟩ <;> rfl

theorem rb_volMultiplesOk : rb.VolMultiplesOk := by
  intro h i hi
  rcases rbInfo_cases hi with ⟨-, rfl⟩ | ⟨-, rfl⟩ <;> decide

end TradeBaseInfo

/-! ## Orders and returns -/

/-- mirrors include/ATStructure.h:170-192 (`tOrderTrack`) -/
structure OrderTrack (α : Type := ℚ) [OfNat α 0] where
  status : Status := 0
  instrHash : Hash := 0
  instr : String := ""
  price : α := 0
  vol : Int := 0
  dir : Dir := .unknown 0
  off : Off := .unknown 0
  volTraded : Int := 0
  amountTraded : α := 0
  from_ : Int := 0
  localId : Int := 0
  accId : Int := 0
  stgId : Int := 0
  orderRef : Int := -1
  frontId : Int := -1
  sessionId : Int := -1
  deriving DecidableEq, Repr

/-- mirrors include/ATStructure.h:194-217 (`tRtnMsg`) -/
structure RtnMsg (α : Type := ℚ) [OfNat α 0] where
  msgType : Status := 0
  localId : Int := 0
  instrHash : Hash := 0
  instr : String := ""
  price : α := 0
  vol : Int := 0
  dir : Dir := .unknown 0
  off : Off := .unknown 0
  orderRef : Int := 0
  frontId : Int := 0
  sessionId : Int := 0
  errid : Int := 0
  msg : String := ""
  deriving DecidableEq, Repr

end NatFramework
