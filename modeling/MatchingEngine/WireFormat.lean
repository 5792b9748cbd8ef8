import MatchingEngine.HashFormat
import MatchingEngine.BalanceLocks

/-! The replies of the scripts as texts. Lua prints an integer in full up to fourteen digits and
with an exponent beyond; a text with an exponent is an error to one decoder, zero to another and
no order to the third. -/
namespace MatchingEngine
open Library

lemma parseI64_luaToString (n : ℤ) : parseI64 (luaToString n) = luaToI64 n := by
  rw [luaToString, parseI64_formatG (by decide), luaToI64]
  have habs : n.natAbs < 10 ^ 14 ↔ |n| < 10 ^ 14 := by
    rw [Int.abs_eq_natAbs]
    omega
  simp only [habs]

/-! ### The reply of the match script -/

def scriptTradeTexts (codec : UuidCodec) (t : ScriptTrade) : List String :=
  [codec.text t.restingId,luaToString t.priceI,luaToString t.qtyI,t.buyerId,t.sellerId]

def replyTexts (codec : UuidCodec) : Reply → List String
  | .insufficientBalance => ["INSUFFICIENT_BALANCE"]
  | .ok remainingI status trades =>
    "OK" :: luaToString remainingI :: statusChar status :: luaToString trades.length ::
      trades.flatMap (scriptTradeTexts codec)

def readReplyStatus : String → Except String OrderStatus
  | "N" => .ok .new
  | "PF" => .ok .partiallyFilled
  | "F" => .ok .filled
  | "C" => .ok .cancelled
  | other => .error ("unknown status from Lua: " ++ other)

/-- Five fields for each trade. -/
def readTrades (codec : UuidCodec) : ℕ → List String → Except String (List LuaTrade)
  | 0, _ => .ok []
  | k + 1, restingId :: priceI :: qtyI :: buyerId :: sellerId :: items => do
    let restingOrderId ← (codec.parse restingId).elim (.error "invalid resting_id UUID") .ok
    let priceI ← (parseI64 priceI).elim (.error "invalid price_i") .ok
    let qtyI ← (parseI64 qtyI).elim (.error "invalid qty_i") .ok
    let trades ← readTrades codec k items
    return ⟨restingOrderId,i64ToDecimal priceI,i64ToDecimal qtyI,buyerId,sellerId⟩ :: trades
  | _, _ => .error "missing resting_id"

/-- The decoding of `match_order_lua`. -/
def decodeReplyTexts (codec : UuidCodec) (order : Order) (lockAsset : String) (items : List String) :
    Except String LuaMatchResult :=
  if items.head? = some "INSUFFICIENT_BALANCE" then
    .error ("INSUFFICIENT_BALANCE: insufficient " ++ lockAsset ++ " for user " ++ order.userId)
  else match items with
  | ok :: remainingI :: status :: tradeCount :: trades => do
    if ok ≠ "OK" then throw ("Lua script returned error: " ++ ok)
    let remainingI := (parseI64 remainingI).getD 0
    let status ← readReplyStatus status
    let tradeCount := (parseU64 tradeCount).getD 0
    if items.length < 4 + tradeCount * 5 then
      throw ("Lua returned " ++ toString items.length ++ " items but expected " ++ toString (4 + tradeCount * 5) ++ " for " ++
        toString tradeCount ++ " trades")
    let trades ← readTrades codec tradeCount trades
    return ⟨i64ToDecimal remainingI,status,trades⟩
  | items => .error ("Lua script returned too few fields: " ++ toString items.length)

lemma readReplyStatus_statusChar {s : OrderStatus} (h : s ≠ .rejected) : readReplyStatus (statusChar s) = .ok s := by
  cases s with
  | rejected => exact absurd rfl h
  | _ => rfl

lemma readTrades_flatMap (codec : UuidCodec) (ts : List ScriptTrade) :
    readTrades codec ts.length (ts.flatMap (scriptTradeTexts codec)) = ts.mapM ScriptTrade.decode := by
  induction ts with
  | nil => rfl
  | cons t ts ih =>
    rw [List.flatMap_cons, List.mapM_cons, List.length_cons]
    simp only [scriptTradeTexts, List.cons_append, List.nil_append, readTrades, codec.parse_text, parseI64_luaToString, ih]
    unfold ScriptTrade.decode
    cases luaToI64 t.priceI with
    | none => rfl
    | some p =>
      cases luaToI64 t.qtyI with
      | none => rfl
      | some q => rfl

lemma length_flatMap_scriptTradeTexts (codec : UuidCodec) (ts : List ScriptTrade) :
    (ts.flatMap (scriptTradeTexts codec)).length = ts.length * 5 := by
  induction ts with
  | nil => rfl
  | cons t ts ih =>
    rw [List.flatMap_cons, List.length_append, ih]
    simp [scriptTradeTexts]
    omega

lemma decodeReplyTexts_ok (codec : UuidCodec) (order : Order) (lockAsset : String) (remainingI : ℤ) {status : OrderStatus}
    (trades : List ScriptTrade) (hstatus : status ≠ .rejected) :
    decodeReplyTexts codec order lockAsset (replyTexts codec (.ok remainingI status trades)) = do
      let ts ← readTrades codec (if trades.length < 10 ^ 14 then trades.length else 0)
        (trades.flatMap (scriptTradeTexts codec))
      return ⟨i64ToDecimal ((luaToI64 remainingI).getD 0),status,ts⟩ := by
  have hcount : (parseU64 (luaToString trades.length)).getD 0 = if trades.length < 10 ^ 14 then trades.length else 0 := by
    rw [luaToString, parseU64_formatG (by decide)]
    split_ifs <;> rfl
  have hitems : ¬ (replyTexts codec (.ok remainingI status trades)).length <
      4 + (if trades.length < 10 ^ 14 then trades.length else 0) * 5 := by
    simp only [replyTexts, List.length_cons, length_flatMap_scriptTradeTexts]
    split_ifs <;> omega
  unfold decodeReplyTexts
  rw [if_neg (by simp [replyTexts])]
  simp only [replyTexts] at hitems ⊢
  simp only [hcount, readReplyStatus_statusChar hstatus, if_neg hitems, parseI64_luaToString]
  rw [if_neg (by simp)]
  rfl

/-- On texts the decoder does what `decodeReply` does on the decoded reply. -/
theorem decodeReplyTexts_eq (codec : UuidCodec) (order : Order) (lockAsset : String) (remainingI : ℤ) {status : OrderStatus}
    {trades : List ScriptTrade} (hstatus : status ≠ .rejected) (hlength : trades.length < 10 ^ 14) :
    decodeReplyTexts codec order lockAsset (replyTexts codec (.ok remainingI status trades)) =
      decodeReply order lockAsset (.ok remainingI status trades) := by
  rw [decodeReplyTexts_ok codec order lockAsset remainingI trades hstatus, if_pos hlength, readTrades_flatMap]
  rfl

lemma getD_luaToI64 (n : ℤ) : (luaToI64 n).getD 0 = n ↔ |n| < 10 ^ 14 := by
  unfold luaToI64
  split_ifs with h
  · exact iff_of_true rfl h
  · simp only [Option.getD_none, h, iff_false]
    rintro rfl
    exact h (by norm_num)

/-- The decoded reply is the script's when all its integers are printed in full. -/
lemma decodeReply_exact_iff (order : Order) (lockAsset : String) (remainingI : ℤ) (status : OrderStatus)
    (trades : List ScriptTrade) :
    decodeReply order lockAsset (.ok remainingI status trades) =
        .ok ⟨i64ToDecimal remainingI,status,trades.map ScriptTrade.toLuaTrade⟩ ↔
      Reply.InRange (.ok remainingI status trades) := by
  constructor
  · intro h
    obtain ⟨ts,hts,h⟩ := exists_of_bind_ok h
    have hrem := congrArg LuaMatchResult.remaining (Except.ok.inj h)
    exact ⟨(getD_luaToI64 remainingI).mp (i64ToDecimal_injective hrem),inRange_of_mapM hts⟩
  · rintro ⟨hrem,hts⟩
    simp only [decodeReply, mapM_decode hts, luaToI64_of_lt hrem]
    rfl

lemma decodeReplyTexts_exact_iff (codec : UuidCodec) (order : Order) (lockAsset : String) (remainingI : ℤ)
    {status : OrderStatus} (trades : List ScriptTrade) (hstatus : status ≠ .rejected) :
    decodeReplyTexts codec order lockAsset (replyTexts codec (.ok remainingI status trades)) =
        .ok ⟨i64ToDecimal remainingI,status,trades.map ScriptTrade.toLuaTrade⟩ ↔
      Reply.InRange (.ok remainingI status trades) ∧ trades.length < 10 ^ 14 := by
  by_cases hlength : trades.length < 10 ^ 14
  · rw [decodeReplyTexts_eq codec order lockAsset remainingI hstatus hlength, decodeReply_exact_iff, and_iff_left hlength]
  · -- the count reads as zero, and no trade is read
    rw [decodeReplyTexts_ok codec order lockAsset remainingI trades hstatus, if_neg hlength]
    refine iff_of_false (fun h => hlength ?_) (fun h => hlength h.2)
    have hnone : [] = trades.map ScriptTrade.toLuaTrade := congrArg LuaMatchResult.trades (Except.ok.inj h)
    rw [List.map_eq_nil_iff.mp hnone.symm]
    decide

/-! ### The reply of the snapshot script -/

/-- A price level. Its price is the text of a hash, which the script or the Rust code has written. -/
structure Level where
  priceI : ℤ
  byScript : Bool
  totalI : ℤ

def Level.texts (l : Level) : List String :=
  [if l.byScript then luaToString l.priceI else l.priceI.repr,luaToString l.totalI]

/-- For each side the number of texts and the texts. -/
def snapshotTexts (bids asks : List Level) : List String :=
  (2 * bids.length).repr :: (bids.flatMap Level.texts ++ (2 * asks.length).repr :: asks.flatMap Level.texts)

/-- Pairs of texts; what does not parse reads as zero. -/
def readLevels (price : ℤ → ℤ) : ℕ → List String → List (Decimal × Decimal) × List String
  | 0, items => ([],items)
  | k + 1, p :: q :: items =>
    let levels := readLevels price k items
    ((i64ToDecimal (price ((parseI64 p).getD 0)),i64ToDecimal ((parseI64 q).getD 0)) :: levels.1,levels.2)
  | _, _ => ([],[])

/-- The decoding of `orderbook_snapshot_lua`, which takes the absolute value of bid prices. The decimals
are then printed. -/
def decodeSnapshotTexts (items : List String) : List (Decimal × Decimal) × List (Decimal × Decimal) :=
  let bidCount := (parseU64 (items.headD "")).getD 0
  let bids := readLevels abs (bidCount / 2) items.tail
  let askCount := (parseU64 (bids.2.headD "")).getD 0
  let asks := readLevels id (askCount / 2) bids.2.tail
  (bids.1,asks.1)

/-- The level as it is. -/
def Level.toDecimals (l : Level) : Decimal × Decimal := (i64ToDecimal l.priceI,i64ToDecimal l.totalI)

/-- The texts of the level are printed in full. -/
def Level.InFull (l : Level) : Prop := (l.byScript → |l.priceI| < 10 ^ 14) ∧ |l.totalI| < 10 ^ 14

/-- The level as it is read. -/
def Level.read (price : ℤ → ℤ) (l : Level) : Decimal × Decimal :=
  (i64ToDecimal (price (if l.byScript then (luaToI64 l.priceI).getD 0 else l.priceI)),
    i64ToDecimal ((luaToI64 l.totalI).getD 0))

lemma readLevels_flatMap (price : ℤ → ℤ) (ls : List Level) (rest : List String) (h : ∀ l ∈ ls, IsI64 l.priceI) :
    readLevels price ls.length (ls.flatMap Level.texts ++ rest) = (ls.map (Level.read price),rest) := by
  induction ls with
  | nil => rfl
  | cons l ls ih =>
    simp only [List.mem_cons, forall_eq_or_imp] at h
    have hprice : (parseI64 (if l.byScript then luaToString l.priceI else l.priceI.repr)).getD 0 =
        if l.byScript then (luaToI64 l.priceI).getD 0 else l.priceI := by
      split_ifs
      · rw [parseI64_luaToString]
      · rw [parseI64_repr h.1, Option.getD_some]
    simp only [List.flatMap_cons, Level.texts, List.length_cons, List.cons_append, List.nil_append,
      readLevels, ih h.2, hprice, parseI64_luaToString]
    rfl

lemma decodeSnapshotTexts_snapshotTexts {bids asks : List Level} (hb : ∀ l ∈ bids, IsI64 l.priceI)
    (ha : ∀ l ∈ asks, IsI64 l.priceI) (hbids : 2 * bids.length < 2 ^ 64) (hasks : 2 * asks.length < 2 ^ 64) :
    decodeSnapshotTexts (snapshotTexts bids asks) = (bids.map (Level.read abs),asks.map (Level.read id)) := by
  have hrest := readLevels_flatMap id asks [] ha
  rw [List.append_nil] at hrest
  simp only [decodeSnapshotTexts, snapshotTexts, List.headD_cons, List.tail_cons, parseU64_repr hbids, Option.getD_some,
    Nat.mul_div_cancel_left _ (show 0 < 2 by decide), readLevels_flatMap abs bids _ hb, parseU64_repr hasks, hrest]

lemma luaToI64_getD_of_not_lt {n : ℤ} (h : ¬ |n| < 10 ^ 14) : (luaToI64 n).getD 0 = 0 ∧ n ≠ 0 := by
  refine ⟨by rw [luaToI64, if_neg h, Option.getD_none],?_⟩
  rintro rfl
  exact h (by norm_num)

lemma Level.read_eq_iff (price : ℤ → ℤ) (hzero : price 0 = 0) (l : Level) :
    l.read price = l.toDecimals ↔ l.InFull ∧ price l.priceI = l.priceI := by
  simp only [Level.read, Level.toDecimals, Prod.mk.injEq, i64ToDecimal_injective.eq_iff, getD_luaToI64, Level.InFull]
  by_cases hlt : |l.priceI| < 10 ^ 14
  · have hread : (luaToI64 l.priceI).getD 0 = l.priceI := (getD_luaToI64 _).mpr hlt
    simp only [hread, ite_self, hlt, imp_true_iff, true_and]
    exact and_comm
  · obtain ⟨hread,hne⟩ := luaToI64_getD_of_not_lt hlt
    cases l.byScript with
    | true =>
      rw [if_pos rfl, hread, hzero]
      exact iff_of_false (fun h => hne h.1.symm) (fun h => hlt (h.1.1 rfl))
    | false => simp [and_comm]

/-! ### The hash of a resting order -/

/-- The fields that `match_order.lua` writes for the remainder of the order. -/
def matchScriptTexts (codec : UuidCodec) (o : Order) (remainingI : ℤ) (status : OrderStatus) : List (String × String) :=
  hashTexts codec luaToString ((matchArgs o "" 0).restingHash remainingI status)

/-- The integers of the hash are printed in full. -/
def HashInFull (o : Order) (remainingI : ℤ) : Prop :=
  |o.priceI| < 10 ^ 14 ∧ |o.qtyI| < 10 ^ 14 ∧ |remainingI| < 10 ^ 14

lemma toHash_resting {o : Order} {remainingI : ℤ} {status : OrderStatus} (hver : o.version = 1) (hrem : IsI64 remainingI)
    (hstatus : status ≠ .rejected) :
    ({ o with remaining := i64ToDecimal remainingI, status := status } : Order).toHash =
      (matchArgs o "" 0).restingHash remainingI status := by
  have hst : storedStatus status = status := by
    cases hs : status with
    | rejected => exact absurd hs hstatus
    | _ => rfl
  simp only [Order.toHash, hst, hver, decimalToI64_i64ToDecimal hrem.1 hrem.2]
  rfl

lemma priceI_isI64 (o : Order) : IsI64 o.priceI := by
  unfold Order.priceI
  cases o.price with
  | none => exact ⟨by simp,by simp⟩
  | some p => exact decimalToI64_bounds p

lemma readHash_luaToString (codec : UuidCodec) {h : OrderHash} (hts : IsI64 h.tsMs) (hver : IsI64 h.version) :
    readHash codec (hmget (hashTexts codec luaToString h)) =
      if |h.priceI| < 10 ^ 14 ∧ |h.qtyI| < 10 ^ 14 ∧ |h.remainingI| < 10 ^ 14 then
        some { h with status := storedStatus h.status }
      else none := by
  rw [readHash_hashTexts codec luaToString hts hver]
  simp only [parseI64_luaToString, luaToI64]
  by_cases hp : |h.priceI| < 10 ^ 14
  · by_cases hq : |h.qtyI| < 10 ^ 14
    · by_cases hr : |h.remainingI| < 10 ^ 14
      · simp only [if_pos hp, if_pos hq, if_pos hr, Option.bind_some, if_pos (And.intro hp (And.intro hq hr))]
      · simp only [if_pos hp, if_pos hq, Option.bind_some, Option.bind_none, hr, and_false, if_false]
    · simp only [if_pos hp, Option.bind_some, Option.bind_none, hq, and_false, false_and, if_false]
  · simp only [Option.bind_none, hp, false_and, if_false]

lemma matchScriptTexts_parse_iff (codec : UuidCodec) (now : Timestamp) {o : Order} {remainingI : ℤ} {status : OrderStatus}
    (hver : o.version = 1) (hts : IsI64 o.createdAt) (hstatus : status ≠ .rejected) (hrem : IsI64 remainingI) :
    parseOrderTexts codec now (hmget (matchScriptTexts codec o remainingI status)) =
        parseOrderTexts codec now (hmget (saveOrderToBookTexts codec
          { o with remaining := i64ToDecimal remainingI, status := status })) ↔ HashInFull o remainingI := by
  set h := (matchArgs o "" 0).restingHash remainingI status with hh
  have hversion : IsI64 h.version := ⟨by simp [hh, MatchArgs.restingHash],by simp [hh, MatchArgs.restingHash]⟩
  have hqty : IsI64 h.qtyI := decimalToI64_bounds o.quantity
  unfold parseOrderTexts
  rw [saveOrderToBookTexts, toHash_resting hver hrem hstatus, ← hh, readHash_repr codec (h := h) (priceI_isI64 o) hqty hrem hts hversion,
    matchScriptTexts, ← hh, readHash_luaToString codec (h := h) hts hversion]
  have hiff : (|h.priceI| < 10 ^ 14 ∧ |h.qtyI| < 10 ^ 14 ∧ |h.remainingI| < 10 ^ 14) ↔ HashInFull o remainingI := Iff.rfl
  split_ifs with hfull
  · exact iff_of_true rfl (hiff.mp hfull)
  · exact iff_of_false (by simp) (fun h => hfull (hiff.mpr h))

/-- What the scripts print is read back exactly as long as every number has at most fourteen digits,
and bid prices are not negative. -/
theorem script_texts_read_back_iff (codec : UuidCodec) :
    (∀ n, ExactInLua n → (parseI64 (luaToString n) = some n ↔ |n| < 10 ^ 14)) ∧
    (∀ order lockAsset remainingI status (trades : List ScriptTrade), status ≠ .rejected → ExactInLua remainingI →
      (∀ t ∈ trades, ExactInLua t.priceI ∧ ExactInLua t.qtyI) →
      (decodeReplyTexts codec order lockAsset (replyTexts codec (.ok remainingI status trades)) =
          .ok ⟨i64ToDecimal remainingI,status,trades.map ScriptTrade.toLuaTrade⟩ ↔
        Reply.InRange (.ok remainingI status trades) ∧ trades.length < 10 ^ 14)) ∧
    (∀ bids asks : List Level, 2 * bids.length < 2 ^ 63 → 2 * asks.length < 2 ^ 63 →
      (∀ l ∈ bids ++ asks, ExactInLua l.priceI ∧ ExactInLua l.totalI) →
      (decodeSnapshotTexts (snapshotTexts bids asks) = (bids.map Level.toDecimals,asks.map Level.toDecimals) ↔
        (∀ l ∈ bids, l.InFull ∧ 0 ≤ l.priceI) ∧ ∀ l ∈ asks, l.InFull)) ∧
    (∀ now (o : Order) remainingI status, o.version = 1 → IsI64 o.createdAt → status ≠ .rejected →
      ExactInLua o.priceI → ExactInLua o.qtyI → ExactInLua remainingI →
      (parseOrderTexts codec now (hmget (matchScriptTexts codec o remainingI status)) =
          parseOrderTexts codec now (hmget (saveOrderToBookTexts codec
            { o with remaining := i64ToDecimal remainingI, status := status })) ↔ HashInFull o remainingI)) := by
  have hI64 : ∀ {n : ℤ}, ExactInLua n → IsI64 n := by
    intro n hn
    have := abs_le.mp hn
    constructor <;> omega
  refine ⟨fun n _ => ?_,?_,?_,?_⟩
  · rw [parseI64_luaToString, luaToI64]
    split_ifs with h
    · exact iff_of_true rfl h
    · exact iff_of_false (by simp) h
  · intro order lockAsset remainingI status trades hstatus _ _
    exact decodeReplyTexts_exact_iff codec order lockAsset remainingI trades hstatus
  · intro bids asks hbids hasks hexact
    rw [decodeSnapshotTexts_snapshotTexts (fun l hl => hI64 (hexact l (by simp [hl])).1)
      (fun l hl => hI64 (hexact l (by simp [hl])).1) (by omega) (by omega), Prod.mk.injEq, List.map_inj_left, List.map_inj_left]
    refine and_congr (forall₂_congr fun l _ => ?_) (forall₂_congr fun l _ => ?_)
    · rw [Level.read_eq_iff abs abs_zero, abs_eq_self]
    · rw [Level.read_eq_iff id rfl]
      exact and_iff_left rfl
  · intro now o remainingI status hver hts hstatus _ _ hrem
    exact matchScriptTexts_parse_iff codec now hver hts hstatus (hI64 hrem)

/-- Fourteen digits are read back, as a number and as the remainder of a reply. -/
theorem fourteen_digits_read_back : parseI64 (luaToString 99999999999999) = some 99999999999999 ∧
    decodeReplyTexts hyphenated (.gtcLimit 9 "bob" "BTC-USDT" .buy 100 99999999999999) "USDT"
      (replyTexts hyphenated (.ok 99999999999999 .new [])) = .ok ⟨i64ToDecimal 99999999999999,.new,[]⟩ := by
  obtain ⟨hnum,hreply,_⟩ := script_texts_read_back_iff hyphenated
  exact ⟨(hnum 99999999999999 (by norm_num [ExactInLua])).mpr (by norm_num),
    (hreply _ _ 99999999999999 .new [] (by decide) (by norm_num [ExactInLua]) (by simp)).mpr ⟨⟨by norm_num,by simp⟩,by decide⟩⟩

/-- A million dollars, scaled, has fifteen digits: the number is not read back, and neither is the reply
of a match that trades at this price. -/
theorem million_not_read_back : ExactInLua (10 ^ 14) ∧ luaToString (10 ^ 14) = "1e+14" ∧
    parseI64 (luaToString (10 ^ 14)) = none ∧
    decodeReplyTexts hyphenated (.gtcLimit 9 "bob" "BTC-USDT" .buy (10 ^ 14) 1) "USDT"
      (replyTexts hyphenated (.ok 0 .filled [⟨1,10 ^ 14,1,"bob","alice"⟩])) = .error "invalid price_i" :=
  ⟨by norm_num [ExactInLua],by decide +kernel,by decide +kernel,by decide +kernel⟩

end MatchingEngine
