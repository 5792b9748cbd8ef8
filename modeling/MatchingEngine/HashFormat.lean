import MatchingEngine.Library.Numerals
import MatchingEngine.Failures
import MatchingEngine.Scaling

/-! The texts of order hashes. `save_order_to_book`, the first phase of
`apply_book_mutations_cas` and `match_order.lua` write the same thirteen fields, the first two
with the integers of Rust and the script with those of Lua; `parse_order_from_hmget` reads them
all. The decoded hashes of the other modules are what is read back. -/
namespace MatchingEngine
open Library

/-- The texts of ids: what is written is not empty and parses. -/
structure UuidCodec where
  text : Uuid → String
  parse : String → Option Uuid
  parse_text : ∀ id, parse (text id) = some id
  text_ne : ∀ id, text id ≠ ""

/-- Numbers are printed by `tostring` with fourteen significant digits. -/
def luaToString (n : ℤ) : String := formatG 14 n

/-! ### Codes -/

def sideChar : Side → String
  | .buy => "B"
  | .sell => "S"

def orderTypeChar : OrderType → String
  | .limit => "L"
  | .market => "M"

def tifChar : TimeInForce → String
  | .gtc => "G"
  | .ioc => "I"
  | .fok => "F"

def statusChar : OrderStatus → String
  | .new => "N"
  | .partiallyFilled => "PF"
  | .filled => "F"
  | .cancelled | .rejected => "C"

def stpChar : SelfTradePreventionMode → String
  | .none => "N"
  | .cancelMaker => "CM"
  | .cancelTaker => "CT"
  | .cancelBoth => "CB"

def readSide : String → Option Side
  | "B" => some .buy
  | "S" => some .sell
  | _ => none

def readOrderType : String → Option OrderType
  | "L" => some .limit
  | "M" => some .market
  | _ => none

def readTif : String → Option TimeInForce
  | "G" => some .gtc
  | "I" => some .ioc
  | "F" => some .fok
  | _ => none

/-- An unknown status reads as new. -/
def readStatus : String → OrderStatus
  | "N" => .new
  | "PF" => .partiallyFilled
  | "F" => .filled
  | "C" => .cancelled
  | _ => .new

def readStp : String → SelfTradePreventionMode
  | "N" => .none
  | "CM" => .cancelMaker
  | "CT" => .cancelTaker
  | "CB" => .cancelBoth
  | _ => .none

@[simp] lemma readSide_sideChar (s : Side) : readSide (sideChar s) = some s := by cases s <;> decide

@[simp] lemma readOrderType_orderTypeChar (t : OrderType) : readOrderType (orderTypeChar t) = some t := by
  cases t <;> decide

@[simp] lemma readTif_tifChar (t : TimeInForce) : readTif (tifChar t) = some t := by cases t <;> decide

@[simp] lemma readStatus_statusChar (s : OrderStatus) : readStatus (statusChar s) = storedStatus s := by
  cases s <;> decide

@[simp] lemma readStp_stpChar (m : SelfTradePreventionMode) : readStp (stpChar m) = m := by cases m <;> decide

/-! ### Writing and reading -/

def orderFields : List String :=
  ["id","pair_id","side","order_type","tif","price_i","qty_i","remaining_i","status","stp","user_id","ts_ms","version"]

/-- The fields of a hash, with prices and quantities written by `num`. -/
def hashTexts (codec : UuidCodec) (num : ℤ → String) (h : OrderHash) : List (String × String) :=
  [("id",codec.text h.id),("pair_id",h.pairId),("side",sideChar h.side),("order_type",orderTypeChar h.orderType),
    ("tif",tifChar h.tif),("price_i",num h.priceI),("qty_i",num h.qtyI),("remaining_i",num h.remainingI),
    ("status",statusChar h.status),("stp",stpChar h.stp),("user_id",h.userId),("ts_ms",h.tsMs.repr),
    ("version",h.version.repr)]

/-- `HMGET` of the fields in their fixed positions. -/
def hmget (fields : List (String × String)) : List (Option String) := orderFields.map (fun f => fields.lookup f)

/-- The fields as `parse_order_from_hmget` reads them; there is no order when one of them is missing
or does not parse, except that price and version have defaults. -/
def readHash (codec : UuidCodec) : List (Option String) → Option OrderHash
  | id :: pairId :: side :: orderType :: tif :: priceI :: qtyI :: remainingI :: status :: stp :: userId :: tsMs :: version :: _ => do
    let idText ← id.filter (fun s => s ≠ "")
    let id ← codec.parse idText
    let pairId ← pairId
    let side ← side.bind readSide
    let orderType ← orderType.bind readOrderType
    let tif ← tif.bind readTif
    let priceI ← parseI64 (priceI.getD "0")
    let qtyI ← qtyI.bind parseI64
    let remainingI ← remainingI.bind parseI64
    let status ← status.map readStatus
    let stp ← stp.map readStp
    let userId ← userId
    let tsMs ← tsMs.bind parseI64
    let version := (parseI64 (version.getD "1")).getD 1
    return ⟨id,pairId,side,orderType,tif,priceI,qtyI,remainingI,status,stp,userId,tsMs,version⟩
  | _ => none

lemma hmget_hashTexts (codec : UuidCodec) (num : ℤ → String) (h : OrderHash) :
    hmget (hashTexts codec num h) = (hashTexts codec num h).map (fun f => some f.2) := by
  rfl

/-- An integer of 64 bits. -/
def IsI64 (n : ℤ) : Prop := -2 ^ 63 ≤ n ∧ n < 2 ^ 63

instance (n : ℤ) : Decidable (IsI64 n) := inferInstanceAs (Decidable (_ ∧ _))

lemma readHash_hashTexts (codec : UuidCodec) (num : ℤ → String) {h : OrderHash} (hts : IsI64 h.tsMs) (hver : IsI64 h.version) :
    readHash codec (hmget (hashTexts codec num h)) =
      (parseI64 (num h.priceI)).bind (fun p => (parseI64 (num h.qtyI)).bind (fun q =>
        (parseI64 (num h.remainingI)).bind (fun r =>
          some { h with priceI := p, qtyI := q, remainingI := r, status := storedStatus h.status }))) := by
  have htsMs : parseI64 h.tsMs.repr = some h.tsMs := parseI64_repr hts
  have hversion : parseI64 h.version.repr = some h.version := parseI64_repr hver
  have hid : (some (codec.text h.id)).filter (fun s => s ≠ "") = some (codec.text h.id) :=
    Option.filter_some_pos (decide_eq_true (codec.text_ne h.id))
  rw [hmget_hashTexts]
  simp only [hashTexts, List.map_cons, List.map_nil, readHash, hid]
  simp [codec.parse_text, htsMs, hversion]

lemma readHash_repr (codec : UuidCodec) {h : OrderHash} (hp : IsI64 h.priceI) (hq : IsI64 h.qtyI) (hr : IsI64 h.remainingI)
    (hts : IsI64 h.tsMs) (hver : IsI64 h.version) :
    readHash codec (hmget (hashTexts codec Int.repr h)) = some { h with status := storedStatus h.status } := by
  have hprice : parseI64 h.priceI.repr = some h.priceI := parseI64_repr hp
  have hqty : parseI64 h.qtyI.repr = some h.qtyI := parseI64_repr hq
  have hrem : parseI64 h.remainingI.repr = some h.remainingI := parseI64_repr hr
  rw [readHash_hashTexts codec _ hts hver, hprice, hqty, hrem]
  rfl

/-! ### Timestamps -/

/-- A `DateTime<Utc>`: seconds since 1970 and nanoseconds of the second, in the range of the type. -/
@[ext] structure Timestamp where
  secs : ℤ
  nanos : ℕ
  nanos_lt : nanos < 10 ^ 9
  range : -8334601228800 ≤ secs ∧ secs ≤ 8210266876799

/-- `timestamp_opt`. -/
def timestampOpt (secs : ℤ) (nanos : ℕ) : Option Timestamp :=
  if h : nanos < 10 ^ 9 ∧ -8334601228800 ≤ secs ∧ secs ≤ 8210266876799 then some ⟨secs,nanos,h.1,h.2⟩ else none

/-- The creation time of a stored order, with the nanoseconds cast to 32 bits. -/
def readTimestamp (now : Timestamp) (tsMs : ℤ) : Timestamp :=
  (timestampOpt (tsMs.tdiv 1000) (tsMs.tmod 1000 * 1000000 % 2 ^ 32).toNat).getD now

/-- `parse_order_from_hmget`: the order, and its creation time in full. -/
def parseOrderTexts (codec : UuidCodec) (now : Timestamp) (values : List (Option String)) : Option (Order × Timestamp) :=
  (readHash codec values).map (fun h => (parseOrderFromHmget h,readTimestamp now h.tsMs))

/-- The fields that `save_order_to_book` writes. -/
def saveOrderToBookTexts (codec : UuidCodec) (o : Order) : List (String × String) := hashTexts codec Int.repr o.toHash

def hexDigits (id : Uuid) : List Char := (fixedDigits 16 32 id.val).map Nat.digitChar

/-- Groups of the given sizes, and one with the rest. -/
def hyphenate : List ℕ → List Char → List Char
  | [], cs => cs
  | n :: ns, cs => cs.take n ++ '-' :: hyphenate ns (cs.drop n)

/-- Thirty-two hexadecimal digits, hyphens aside. -/
def parseHyphenated (s : String) : Option Uuid :=
  let cs := s.toList.filter (fun c => c ≠ '-')
  if cs.length = 32 then (cs.mapM hexValue).map (fun ds => Fin.ofNat (2 ^ 128) (digitsValue 16 ds)) else none

lemma filter_hyphenate (ns : List ℕ) {cs : List Char} (h : ∀ c ∈ cs, c ≠ '-') :
    (hyphenate ns cs).filter (fun c => c ≠ '-') = cs := by
  induction ns generalizing cs with
  | nil => exact List.filter_eq_self.mpr fun c hc => decide_eq_true (h c hc)
  | cons n ns ih =>
    have hfront : (cs.take n).filter (fun c => c ≠ '-') = cs.take n :=
      List.filter_eq_self.mpr fun c hc => decide_eq_true (h c (List.mem_of_mem_take hc))
    rw [hyphenate, List.filter_append, hfront, List.filter_cons_of_neg (by simp),
      ih fun c hc => h c (List.mem_of_mem_drop hc), List.take_append_drop]

lemma mapM_hexValue {ds : List ℕ} (h : ∀ d ∈ ds, d < 16) : (ds.map Nat.digitChar).mapM hexValue = some ds := by
  induction ds with
  | nil => rfl
  | cons d ds ih =>
    simp only [List.mem_cons, forall_eq_or_imp] at h
    rw [List.map_cons, List.mapM_cons, (hexValue_digitChar h.1).1, ih h.2]
    rfl

/-- The texts of the ids as the library for them writes them. -/
def hyphenated : UuidCodec where
  text id := String.ofList (hyphenate [8,4,4,4] (hexDigits id))
  parse := parseHyphenated
  parse_text id := by
    have hlt := fixedDigits_lt (b := 16) (by decide) 32 id.val
    have hdigits : ∀ c ∈ hexDigits id, c ≠ '-' := by
      intro c hc
      obtain ⟨d,hd,rfl⟩ := List.mem_map.mp hc
      exact (hexValue_digitChar (hlt d hd)).2
    have hlength : (hexDigits id).length = 32 := by rw [hexDigits, List.length_map, length_fixedDigits]
    have hvalue : id.val % 16 ^ 32 = id.val := Nat.mod_eq_of_lt id.isLt
    unfold parseHyphenated
    simp only [String.toList_ofList, filter_hyphenate _ hdigits, hlength]
    rw [hexDigits, mapM_hexValue hlt, Option.map_some, digitsValue_fixedDigits, hvalue]
    exact congrArg some (Fin.ofNat_val_eq_self id)
  text_ne id := by
    intro h
    have hchars := congrArg String.toList h
    simp [hyphenate] at hchars

end MatchingEngine
