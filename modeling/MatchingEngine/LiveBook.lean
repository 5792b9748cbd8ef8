import MatchingEngine.CacheFeed
import MatchingEngine.Debouncer

/-! From the book of the store to the book that clients see. The rebuild task of a pair reads the book and
writes its text under the pair's key, by a SET and a PUBLISH. REST reads the key; web sockets and
snapshots, and REST when Valkey does not answer, get what the gateway has heard of. All of these lag
behind; when nothing is left to be done, the text is that of the store's book. -/
namespace MatchingEngine
open Library

/-- `cache:orderbook:{pair}`. -/
def bookKey (i : Fin 3) : String := "cache:orderbook:" ++ debouncedPair i

lemma bookKey_injective : ∀ i j, bookKey i = bookKey j → i = j := by decide +kernel

lemma bookKey_plain : ∀ i, '\n' ∉ (bookKey i).toList := by decide +kernel

/-- The exchange with its rebuild tasks, and the feed to a gateway. -/
structure LiveBook where
  books : Debounced
  feed : CacheFeed

namespace LiveBook

inductive Action
  | exchange (e : Debounced.Event)
  | feed (a : CacheFeed.Action)

/-- The write of a rebuild task that has a book in hand; `text` prints it. -/
def toFeed (text : Fin 3 → List (Decimal × Decimal) × List (Decimal × Decimal) → String) (c : Debounced) :
    Debounced.Event → Option CacheFeed.Action
  | .advance j =>
    match c.worker j with
    | .holding v _ => some (.set j (bookKey j) (text j v))
    | _ => none
  | _ => none

variable (pairs : PairsCache) (text : Fin 3 → List (Decimal × Decimal) × List (Decimal × Decimal) → String)

def step (s : LiveBook) : Action → LiveBook
  | .exchange e => ⟨s.books.next pairs e,(toFeed text s.books e).elim s.feed s.feed.step⟩
  | .feed a => { s with feed := s.feed.step a }

def run (s : LiveBook) (actions : List Action) : LiveBook := actions.foldl (step pairs text) s

@[simp] lemma run_nil (s : LiveBook) : s.run pairs text [] = s := rfl

@[simp] lemma run_cons (s : LiveBook) (a : Action) (actions : List Action) :
    s.run pairs text (a :: actions) = (s.step pairs text a).run pairs text actions := rfl

/-- Nothing escapes the task of the pair, tasks finish their PUBLISH before they go on, and the feed of
the key is in order, with the task as its only writer. -/
def Proper (i : Fin 3) (s : LiveBook) : Action → Prop
  | .exchange e => e.Heard pairs i s.books.source ∧ ∀ j : Fin 3, e = .advance j → s.feed.writers j = none
  | .feed a => s.feed.InOrder (bookKey i) i a ∧ ∀ w v, a ≠ .set w (bookKey i) v

def ProperRun (i : Fin 3) : LiveBook → List Action → Prop
  | _, [] => True
  | s, a :: actions => s.Proper pairs i a ∧ ProperRun i (s.step pairs text a) actions

/-- The last text written is that of the last book published, and both ends keep up. -/
structure Live (i : Fin 3) (s : LiveBook) : Prop where
  homed : s.books.source.Homed
  tracks : s.books.Tracks rebuildOrderbookCache i
  genuine : s.feed.Genuine
  current : s.feed.Current (bookKey i) i
  linked : (s.feed.written (bookKey i)).getLast? = ((s.books.published i).getLast?).map (text i)

/-! ### Steps -/

lemma written_step {f : CacheFeed} {k : String} {a : CacheFeed.Action} (h : ∀ w v, a ≠ .set w k v) : (f.step a).written k = f.written k := by
  cases a with
  | set w key value =>
    have hk : key ≠ k := by
      rintro rfl
      exact h w value rfl
    simp only [CacheFeed.step]
    split
    · exact Function.update_of_ne (Ne.symm hk) _ _
    · rfl
  | publish w => simp only [CacheFeed.step]; split <;> rfl
  | connect => simp only [CacheFeed.step]; split <;> rfl
  | poll key => simp only [CacheFeed.step]; split <;> rfl
  | receive => rw [(CacheFeed.step_receive f).2.2]
  | apply =>
    simp only [CacheFeed.step]
    split
    · rfl
    · split <;> rfl
  | _ => rfl

lemma written_set {f : CacheFeed} {w : ℕ} (h : f.writers w = none) (k v : String) :
    ((f.step (.set w k v)).written k).getLast? = some v := by
  simp only [CacheFeed.step, h, Function.update_self, List.getLast?_concat]

variable {pairs text} {i : Fin 3} {s : LiveBook}

lemma published_advance (c : Debounced) (j i : Fin 3) :
    (c.next pairs (.advance j)).published i = c.published i ++ (if j = i then (c.worker i).held else []) := by
  rw [Debounced.next, Coalescing.published_step]
  simp [Debounced.Event.action, Coalescing.Action.Advances]

variable (pairs text) in
lemma toFeed_cases (c : Debounced) (e : Debounced.Event) :
    (toFeed text c e = none ∧ ∀ i, (c.next pairs e).published i = c.published i) ∨
      ∃ j v, e = .advance j ∧ (c.worker j).held = [v] ∧ toFeed text c e = some (.set j (bookKey j) (text j v)) := by
  cases e with
  | advance j =>
    cases hw : c.worker j with
    | holding v permit => exact Or.inr ⟨j,v,rfl,by rw [hw]; rfl,by simp only [toFeed, hw]⟩
    | _ =>
      refine Or.inl ⟨by simp only [toFeed, hw],fun i => ?_⟩
      rw [published_advance]
      by_cases hj : j = i
      · subst hj
        simp [hw, Coalescer.held]
      · rw [if_neg hj, List.append_nil]
  | _ =>
    refine Or.inl ⟨rfl,fun i => ?_⟩
    rw [Debounced.next, Coalescing.published_step]
    simp [Debounced.Event.action, Coalescing.Action.Advances]

lemma set_inOrder (htext : ∀ v, shown (text i v) = true) (f : CacheFeed) (j : Fin 3) (v : List (Decimal × Decimal) × List (Decimal × Decimal)) :
    f.InOrder (bookKey i) i (.set j (bookKey j) (text j v)) := by
  refine ⟨bookKey_plain j,fun hk => ?_⟩
  obtain rfl := bookKey_injective j i hk
  exact ⟨rfl,htext v⟩

variable (pairs) in
lemma Live.publish (hs : s.Live text i) (htext : ∀ v, shown (text i v) = true) {j : Fin 3} {v : List (Decimal × Decimal) × List (Decimal × Decimal)}
    (hheld : (s.books.worker j).held = [v]) (hfree : s.feed.writers j = none) :
    (s.feed.step (.set j (bookKey j) (text j v))).Genuine ∧ (s.feed.step (.set j (bookKey j) (text j v))).Current (bookKey i) i ∧
      ((s.feed.step (.set j (bookKey j) (text j v))).written (bookKey i)).getLast? =
        (((s.books.next pairs (.advance j)).published i).getLast?).map (text i) := by
  refine ⟨hs.genuine.step (bookKey_plain j),hs.current.step (set_inOrder htext s.feed j v),?_⟩
  rw [published_advance]
  by_cases hj : j = i
  · subst hj
    rw [written_set hfree, if_pos rfl, hheld, List.getLast?_concat]
    rfl
  · have hkey : ∀ w u, CacheFeed.Action.set j (bookKey j) (text j v) ≠ .set w (bookKey i) u := by
      rintro w u heq
      exact hj (bookKey_injective j i (CacheFeed.Action.set.inj heq).2.1)
    rw [written_step hkey, if_neg hj, List.append_nil]
    exact hs.linked

lemma Live.step (hs : s.Live text i) (htext : ∀ v, shown (text i v) = true) {a : Action} (h : s.Proper pairs i a) :
    (s.step pairs text a).Live text i := by
  cases a with
  | feed a =>
    refine ⟨hs.homed,hs.tracks,hs.genuine.step h.1.plain,hs.current.step h.1,?_⟩
    rw [LiveBook.step, written_step h.2]
    exact hs.linked
  | exchange e =>
    obtain ⟨hheard,hfree⟩ := h
    obtain ⟨hhomed,haudible⟩ := hheard.audible hs.homed
    rcases toFeed_cases pairs text s.books e with ⟨hnone,hpublished⟩ | ⟨j,v,rfl,hheld,hset⟩
    · have hfeed : (s.step pairs text (.exchange e)).feed = s.feed := by
        simp only [LiveBook.step, hnone, Option.elim_none]
      refine ⟨hhomed,hs.tracks.step haudible,hfeed ▸ hs.genuine,hfeed ▸ hs.current,?_⟩
      rw [hfeed]
      change _ = (((s.books.next pairs e).published i).getLast?).map (text i)
      rw [hpublished i]
      exact hs.linked
    · have hfeed : (s.step pairs text (.exchange (.advance j))).feed = s.feed.step (.set j (bookKey j) (text j v)) := by
        simp only [LiveBook.step, hset, Option.elim_some]
      obtain ⟨hgenuine,hcurrent,hlinked⟩ := hs.publish pairs htext hheld (hfree j rfl)
      refine ⟨hhomed,hs.tracks.step haudible,hfeed ▸ hgenuine,hfeed ▸ hcurrent,?_⟩
      rw [hfeed]
      exact hlinked

lemma Live.run (hs : s.Live text i) (htext : ∀ v, shown (text i v) = true) {actions : List Action} (h : ProperRun pairs text i s actions) :
    (s.run pairs text actions).Live text i := by
  induction actions generalizing s with
  | nil => exact hs
  | cons a actions ih => exact ih (hs.step htext h.1) h.2

lemma Live.served (hs : s.Live text i) (hsettled : s.books.Settled i) (hcoming : s.feed.coming (bookKey i) i = []) :
    s.feed.getLatest (bookKey i) = some (text i (rebuildOrderbookCache i s.books.source)) := by
  have hserved := hs.current.served
  rw [hcoming, List.append_nil, getLast?_toList, hs.linked, hs.tracks.published_of_settled hsettled] at hserved
  exact hserved

/-! ### Coming to rest -/

/-- A round of the task: it finishes its PUBLISH and makes its next step. -/
def round (i : Fin 3) : List Action := [.feed (.publish i),.exchange (.advance i)]

/-- Enough of them, a last PUBLISH, and the messages. -/
def drain (i : Fin 3) (n : ℕ) : List Action :=
  (List.replicate 7 (round i)).flatten ++ (.feed (.publish i) :: List.replicate n (.feed .receive))

lemma run_append (s : LiveBook) (as bs : List Action) : s.run pairs text (as ++ bs) = (s.run pairs text as).run pairs text bs :=
  List.foldl_append

lemma run_feed (s : LiveBook) (as : List CacheFeed.Action) :
    s.run pairs text (as.map Action.feed) = { s with feed := s.feed.run as } := by
  induction as generalizing s with
  | nil => rfl
  | cons a as ih =>
    rw [List.map_cons, run_cons, ih]
    rfl

lemma inbox_exchange (s : LiveBook) (e : Debounced.Event) : (s.step pairs text (.exchange e)).feed.inbox = s.feed.inbox := by
  rcases toFeed_cases pairs text s.books e with ⟨hnone,_⟩ | ⟨j,v,_,_,hset⟩
  · simp only [LiveBook.step, hnone, Option.elim_none]
  · simp only [LiveBook.step, hset, Option.elim_some, CacheFeed.step]
    split <;> rfl

variable (pairs) in
/-- A round changes neither the store nor what is owed, brings the task closer to waiting, and sends at
most one message. -/
lemma Live.round (hs : s.Live text i) (htext : ∀ v, shown (text i v) = true) :
    (s.run pairs text (round i)).Live text i ∧ (s.run pairs text (round i)).books.source = s.books.source ∧
      (s.run pairs text (round i)).books.owed i = s.books.owed i ∧
      ((s.run pairs text (round i)).books.worker i).rank = (s.books.worker i).rank - 1 ∧
      (s.run pairs text (round i)).feed.inbox.length ≤ s.feed.inbox.length + 1 := by
  obtain ⟨hlength,hfree,_⟩ := CacheFeed.step_publish s.feed i
  have hproper : ProperRun pairs text i s (LiveBook.round i) := by
    refine ⟨⟨trivial,fun w v h => by cases h⟩,⟨trivial,?_⟩,trivial⟩
    rintro j ⟨⟩
    exact hfree
  refine ⟨hs.run htext hproper,rfl,rfl,?_,?_⟩
  · have hworker : (s.run pairs text (LiveBook.round i)).books.worker i =
        (s.books.worker i).advance (rebuildOrderbookCache i s.books.source) := Function.update_self ..
    rw [hworker, Coalescer.rank_advance]
  · rw [LiveBook.round, run_cons, run_cons, run_nil, inbox_exchange]
    exact hlength

variable (pairs) in
lemma Live.rounds (hs : s.Live text i) (htext : ∀ v, shown (text i v) = true) (m : ℕ) :
    (s.run pairs text (List.replicate m (LiveBook.round i)).flatten).Live text i ∧
      (s.run pairs text (List.replicate m (LiveBook.round i)).flatten).books.source = s.books.source ∧
      (s.run pairs text (List.replicate m (LiveBook.round i)).flatten).books.owed i = s.books.owed i ∧
      ((s.run pairs text (List.replicate m (LiveBook.round i)).flatten).books.worker i).rank = (s.books.worker i).rank - m ∧
      (s.run pairs text (List.replicate m (LiveBook.round i)).flatten).feed.inbox.length ≤ s.feed.inbox.length + m := by
  induction m generalizing s with
  | zero => exact ⟨hs,rfl,rfl,rfl,le_refl _⟩
  | succ m ih =>
    obtain ⟨hlive,hsource,howed,hrank,hlength⟩ := hs.round pairs htext
    obtain ⟨hlive',hsource',howed',hrank',hlength'⟩ := ih hlive
    rw [List.replicate_succ, List.flatten_cons, run_append]
    exact ⟨hlive',hsource'.trans hsource,howed'.trans howed,by omega,by omega⟩

lemma Live.drain (hs : s.Live text i) (htext : ∀ v, shown (text i v) = true) (howed : s.books.owed i = 0) {n : ℕ}
    (hn : s.feed.inbox.length + 8 ≤ n) : (s.run pairs text (drain i n)).feed.getLatest (bookKey i) =
      some (text i (rebuildOrderbookCache i s.books.source)) := by
  obtain ⟨hlive,hsource,howed',hrank,hlength⟩ := hs.rounds pairs htext 7
  have hrank7 := Coalescer.rank_le (s.books.worker i)
  have htail : (.feed (.publish i) :: List.replicate n (.feed .receive) : List Action) =
      ((.publish i :: List.replicate n .receive : List CacheFeed.Action)).map Action.feed := by
    rw [List.map_cons, List.map_replicate]
  rw [LiveBook.drain, run_append, htail, run_feed]
  generalize s.run pairs text (List.replicate 7 (LiveBook.round i)).flatten = t at hlive hsource howed' hrank hlength
  have hsettled : t.books.Settled i := ⟨howed'.trans howed,Coalescer.rank_eq_zero.mp (by omega)⟩
  obtain ⟨hmessages,hclosed,_⟩ := CacheFeed.step_publish t.feed i
  obtain ⟨hinbox,hwriters,hwritten⟩ := CacheFeed.run_receives (t.feed.step (.publish i)) n
  have horder : CacheFeed.Orderly (bookKey i) i t.feed (.publish i :: List.replicate n .receive) :=
    ⟨trivial,CacheFeed.receives_orderly (bookKey i) i (t.feed.step (.publish i)) n⟩
  have hafter : LiveBook.Live text i { t with feed := t.feed.run (.publish i :: List.replicate n .receive) } := by
    refine ⟨hlive.homed,hlive.tracks,hlive.genuine.run horder.plain,hlive.current.run horder,?_⟩
    change (((t.feed.step (.publish i)).run (List.replicate n .receive)).written (bookKey i)).getLast? = _
    rw [hwritten, written_step (fun w v h => by cases h)]
    exact hlive.linked
  rw [← hsource]
  refine hafter.served hsettled ?_
  change ((t.feed.step (.publish i)).run (List.replicate n .receive)).coming (bookKey i) i = []
  simp only [CacheFeed.coming]
  rw [hinbox, hwriters, hclosed, List.drop_eq_nil_of_le (by omega)]
  rfl

/-- The texts of the two books that follow. -/
def printed (_ : Fin 3) (v : List (Decimal × Decimal) × List (Decimal × Decimal)) : String :=
  if v = ([],[]) then "\x7b\"asks\":[],\"bids\":[],\"pair\":\"BTC-USDT\"\x7d"
  else "\x7b\"asks\":[[\"100\",\"1\"]],\"bids\":[],\"pair\":\"BTC-USDT\"\x7d"

end LiveBook
end MatchingEngine
