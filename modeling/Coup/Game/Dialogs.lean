import Coup.Game.Effects

/-!
# The exchange dialogs

A dialog keeps the copy of `twoCards` it was given, and a callback writes a
card of this copy into the hand and the card of the hand into the live pair.
The copy and the live pair agree for the first delivery only, so a second
delivery of the same long press duplicates the chosen card.
-/

namespace Coup

open Coup.Support

/-! ## Three cards and a copy of two -/

/-- The offered card of the hand and the two drawn cards. -/
structure Trio (α : Type*) where
  held : α
  left : α
  right : α

namespace Trio

variable {α : Type*}

def cards (t : Trio α) : List α := [t.held, t.left, t.right]

/-- A callback of a dialog that was given `a` and `b`. -/
def answer (a b : α) (t : Trio α) : ExchangeAnswer → Trio α
  | .keep => t
  | .first => ⟨a, t.held, t.right⟩
  | .second => ⟨b, t.left, t.held⟩

/-- What the three positions hold after the given numbers of deliveries of the
two long presses, as long as neither was delivered twice. -/
inductive Intact (x a b : α) : ℕ → ℕ → Trio α → Prop
  | fresh : Intact x a b 0 0 ⟨x, a, b⟩
  | first : Intact x a b 1 0 ⟨a, x, b⟩
  | second : Intact x a b 0 1 ⟨b, a, x⟩
  | firstSecond : Intact x a b 1 1 ⟨b, x, a⟩
  | secondFirst : Intact x a b 1 1 ⟨a, b, x⟩

/-- A card is gone and no callback can bring it back. -/
def Lost (x a b : α) (t : Trio α) : Prop :=
  x ∉ t.cards ∨ t = ⟨b, x, b⟩ ∨ t = ⟨a, a, x⟩

section

variable {x a b : α} {n m : ℕ} {t : Trio α} {as : List ExchangeAnswer}

theorem Intact.perm (h : Intact x a b n m t) : t.cards.Perm [x, a, b] := by
  cases h with
  | fresh => exact .refl _
  | first => exact .swap _ _ _
  | second => exact ((List.Perm.swap a b [x]).trans
      (.cons a (.swap x b []))).trans (.swap x a [b])
  | firstSecond => exact (List.Perm.swap x b [a]).trans (.cons x (.swap a b []))
  | secondFirst => exact (List.Perm.cons a (.swap x b [])).trans (.swap x a [b])

theorem ne_of_nodup (hnodup : [x, a, b].Nodup) : x ≠ a ∧ x ≠ b := by
  simpa using (List.nodup_cons.mp hnodup).1

theorem Lost.not_perm (hnodup : [x, a, b].Nodup) (h : Lost x a b t) :
    ¬ t.cards.Perm [x, a, b] := by
  intro hperm
  rcases h with hgone | rfl | rfl
  · exact hgone (hperm.symm.subset List.mem_cons_self)
  · have hdup := hperm.nodup_iff.mpr hnodup
    simp [cards] at hdup
  · have hdup := hperm.nodup_iff.mpr hnodup
    simp [cards] at hdup

theorem Lost.answer (hnodup : [x, a, b].Nodup) (h : Lost x a b t)
    (r : ExchangeAnswer) : Lost x a b (t.answer a b r) := by
  obtain ⟨hxa, hxb⟩ := ne_of_nodup hnodup
  rcases h with hgone | rfl | rfl
  · apply Or.inl
    simp only [cards, List.mem_cons, List.not_mem_nil, or_false,
      not_or] at hgone
    cases r <;> simp [Trio.answer, cards, hgone, hxa, hxb]
  · cases r with
    | keep | second => exact Or.inr (Or.inl rfl)
    | first => exact Or.inl (by simp [Trio.answer, cards, hxa, hxb])
  · cases r with
    | keep | first => exact Or.inr (Or.inr rfl)
    | second => exact Or.inl (by simp [Trio.answer, cards, hxa, hxb])

theorem Lost.foldl (hnodup : [x, a, b].Nodup) (h : Lost x a b t) :
    Lost x a b (as.foldl (Trio.answer a b) t) := by
  induction as generalizing t with
  | nil => exact h
  | cons r as ih => exact ih (h.answer hnodup r)

theorem Intact.le_one (h : Intact x a b n m t) : n ≤ 1 ∧ m ≤ 1 := by
  cases h <;> decide

theorem Intact.answer_first (h : Intact x a b 0 m t) :
    Intact x a b 1 m (t.answer a b .first) := by
  cases h with
  | fresh => exact .first
  | second => exact .secondFirst

theorem Intact.answer_second (h : Intact x a b n 0 t) :
    Intact x a b n 1 (t.answer a b .second) := by
  cases h with
  | fresh => exact .second
  | first => exact .firstSecond

/-- The second delivery of a long press loses a card. -/
theorem Intact.first_again (hnodup : [x, a, b].Nodup)
    (h : Intact x a b 1 m t) : Lost x a b (t.answer a b .first) := by
  obtain ⟨hxa, hxb⟩ := ne_of_nodup hnodup
  cases h with
  | first | firstSecond => exact Or.inl (by simp [Trio.answer, cards, hxa, hxb])
  | secondFirst => exact Or.inr (Or.inr rfl)

theorem Intact.second_again (hnodup : [x, a, b].Nodup)
    (h : Intact x a b n 1 t) : Lost x a b (t.answer a b .second) := by
  obtain ⟨hxa, hxb⟩ := ne_of_nodup hnodup
  cases h with
  | second | secondFirst => exact Or.inl (by simp [Trio.answer, cards, hxa, hxb])
  | firstSecond => exact Or.inr (Or.inl rfl)

/-- The three cards are kept exactly if neither long press is delivered
twice. -/
theorem Intact.foldl_perm_iff (as : List ExchangeAnswer)
    (hnodup : [x, a, b].Nodup) (h : Intact x a b n m t) :
    (as.foldl (Trio.answer a b) t).cards.Perm [x, a, b] ↔
      as.count .first + n ≤ 1 ∧ as.count .second + m ≤ 1 := by
  induction as generalizing n m t with
  | nil => exact iff_of_true h.perm (by simpa using h.le_one)
  | cons r as ih =>
      rw [List.foldl_cons]
      obtain ⟨hn, hm⟩ := h.le_one
      cases r with
      | keep => simpa [Trio.answer] using ih h
      | first =>
          rcases Nat.le_one_iff_eq_zero_or_eq_one.mp hn with rfl | rfl
          · simpa using ih h.answer_first
          · refine iff_of_false
              (((h.first_again hnodup).foldl hnodup).not_perm hnodup) ?_
            simp
      | second =>
          rcases Nat.le_one_iff_eq_zero_or_eq_one.mp hm with rfl | rfl
          · simpa using ih h.answer_second
          · refine iff_of_false
              (((h.second_again hnodup).foldl hnodup).not_perm hnodup) ?_
            simp

end

end Trio

/-! ## The callbacks of a dialog -/

/-- The callbacks of one presented dialog, in the order of their delivery. -/
def deliver (s : State) (d : Dialog) (as : List ExchangeAnswer) :
    Except Fault State :=
  run (fun s a => answerDialog s d a) s as

def drawnCards (s : State) : List CardRef :=
  match s.vc.twoCards with
  | some two => [two.1, two.2]
  | none => []

/-- The card in the offered slot of the user's hand and the drawn cards. -/
def offeredCards (s : State) (i : Slot) : List CardRef :=
  s.world.slot s.vc.user i :: drawnCards s

/-- The hand of the user and the drawn cards. -/
def handAndDrawn (s : State) : List CardRef :=
  s.world.slot s.vc.user .first :: s.world.slot s.vc.user .second ::
    drawnCards s

/-- No card is destroyed or duplicated. -/
structure Conserves (s : State) (i : Slot) (s' : State) : Prop where
  offered : (offeredCards s' i).Perm (offeredCards s i)
  all : (handAndDrawn s').Perm (handAndDrawn s)

/-- The offered slot and the drawn cards form the trio. -/
structure ShowsTrio (s : State) (i : Slot) (t : Trio CardRef) : Prop where
  twoCards : s.vc.twoCards = some (t.left, t.right)
  slot : s.world.slot s.vc.user i = t.held

/-- What no callback of a dialog for the slot changes. -/
structure SameRest (s : State) (i : Slot) (s' : State) : Prop where
  user : s'.vc.user = s.vc.user
  slot : ∀ j ≠ i, s'.world.slot s.vc.user j = s.world.slot s.vc.user j

section Dialog

variable {s s' : State} {i : Slot} {caseNum : ℕ} {t : Trio CardRef}
  {a b : CardRef} {two : CardRef × CardRef}

theorem ShowsTrio.offeredCards (h : ShowsTrio s i t) :
    offeredCards s i = t.cards := by
  rw [Coup.offeredCards, drawnCards, h.twoCards, h.slot]
  rfl

/-- A callback acts on the trio. -/
theorem answerDialog_trio
    (hcase : caseNum = 0 ∧ i = .first ∨ caseNum = 2 ∧ i = .second)
    (h : ShowsTrio s i t) (r : ExchangeAnswer) :
    ∃ s', answerDialog s ⟨(a, b), caseNum⟩ r = .ok s' ∧
      ShowsTrio s' i (t.answer a b r) ∧ SameRest s i s' := by
  have hwrite : ∀ (c : CardRef) (left right : CardRef),
      ShowsTrio { s with
          vc.twoCards := some (left, right)
          world := s.world.setSlot s.vc.user i c } i ⟨c, left, right⟩ ∧
        SameRest s i { s with
          vc.twoCards := some (left, right)
          world := s.world.setSlot s.vc.user i c } := by
    intro c left right
    refine ⟨⟨rfl, by simp [World.setSlot_slot]⟩, rfl, fun j hj => ?_⟩
    simp [World.setSlot_slot, hj]
  have hslot := h.slot
  cases r with
  | keep => exact ⟨s, rfl, h, rfl, fun _ _ => rfl⟩
  | first =>
      refine ⟨_, ?_, hwrite a t.held t.right⟩
      rcases hcase with ⟨rfl, rfl⟩ | ⟨rfl, rfl⟩ <;>
        simp [answerDialog, recognizeLongPressedGesture1, applyExchange,
          h.twoCards, hslot, orFault]
  | second =>
      refine ⟨_, ?_, hwrite b t.left t.held⟩
      rcases hcase with ⟨rfl, rfl⟩ | ⟨rfl, rfl⟩ <;>
        simp [answerDialog, recognizeLongPressedGesture2, applyExchange,
          h.twoCards, hslot, orFault]

theorem deliver_trio
    (hcase : caseNum = 0 ∧ i = .first ∨ caseNum = 2 ∧ i = .second)
    (h : ShowsTrio s i t) (as : List ExchangeAnswer) :
    ∃ s', deliver s ⟨(a, b), caseNum⟩ as = .ok s' ∧
      ShowsTrio s' i (as.foldl (Trio.answer a b) t) ∧ SameRest s i s' := by
  induction as generalizing s t with
  | nil => exact ⟨s, rfl, h, rfl, fun _ _ => rfl⟩
  | cons r as ih =>
      obtain ⟨s₁, hstep, h₁, hrest₁⟩ :=
        answerDialog_trio (a := a) (b := b) hcase h r
      obtain ⟨s₂, hrun, h₂, hrest₂⟩ := ih h₁
      refine ⟨s₂, ?_, h₂, hrest₂.user.trans hrest₁.user, fun j hj => ?_⟩
      · rw [deliver, run_cons, hstep, bind_ok]
        exact hrun
      · have hslot := hrest₂.slot j hj
        rw [hrest₁.user] at hslot
        exact hslot.trans (hrest₁.slot j hj)

/-- If the offered slot and the drawn cards keep their cards, so do the whole
hand and the drawn cards. -/
theorem SameRest.conserves (h : SameRest s i s')
    (hperm : (offeredCards s' i).Perm (offeredCards s i)) :
    Conserves s i s' := by
  refine ⟨hperm, ?_⟩
  unfold offeredCards at hperm
  unfold handAndDrawn
  cases i with
  | first =>
      rw [h.user] at hperm ⊢
      rw [h.slot .second (by decide)]
      exact (List.Perm.swap _ _ _).trans
        ((hperm.cons _).trans (.swap _ _ _))
  | second =>
      rw [h.user] at hperm ⊢
      rw [h.slot .first (by decide)]
      exact hperm.cons _

/-- During the exchange of a game the three cards are different objects. -/
theorem Offers.nodup {created parked : List CardRef} {b : Board PlayerRef}
    (h : Offers created s two parked b) (huser : s.vc.user ∈ s.world.players)
    (i : Slot) : [s.world.slot s.vc.user i, two.1, two.2].Nodup := by
  obtain ⟨cards, -, htable⟩ := h.shows
  have hnodup := htable.partition.nodup_iff.mpr htable.created_nodup
  have hrest := (List.nodup_append.mp hnodup).2.1
  obtain ⟨-, hdrawn, hdisjoint⟩ := List.nodup_append.mp hrest
  have hslot := World.slot_mem_handCards huser i
  refine List.nodup_cons.mpr ⟨?_, ?_⟩
  · intro hmem
    exact hdisjoint _ hslot _ (List.mem_append_left parked hmem) rfl
  · exact (List.nodup_append.mp (show ([two.1, two.2] ++ parked).Nodup from
      hdrawn)).1

end Dialog

/-- The callbacks of a dialog conserve the cards exactly if each of the two long
presses delivers its action at most once. -/
theorem dialog_conserves_iff {s : State} {two : CardRef × CardRef} {i : Slot}
    {caseNum : ℕ}
    (hcase : caseNum = 0 ∧ i = .first ∨ caseNum = 2 ∧ i = .second)
    (htwo : s.vc.twoCards = some two)
    (hnodup : [s.world.slot s.vc.user i, two.1, two.2].Nodup)
    (as : List ExchangeAnswer) :
    ∃ s', deliver s ⟨two, caseNum⟩ as = .ok s' ∧
      (Conserves s i s' ↔ as.count .first ≤ 1 ∧ as.count .second ≤ 1) := by
  obtain ⟨a, b⟩ := two
  have htrio : ShowsTrio s i ⟨s.world.slot s.vc.user i, a, b⟩ :=
    ⟨htwo, rfl⟩
  obtain ⟨s', hrun, h', hrest⟩ := deliver_trio (a := a) (b := b) hcase
    htrio as
  have hiff := Trio.Intact.foldl_perm_iff as hnodup .fresh
  rw [Nat.add_zero, Nat.add_zero] at hiff
  refine ⟨s', hrun, ?_⟩
  rw [← hiff]
  constructor
  · intro h
    have hoffered := h.offered
    rw [h'.offeredCards, htrio.offeredCards] at hoffered
    exact hoffered
  · intro hperm
    apply hrest.conserves
    rw [h'.offeredCards, htrio.offeredCards]
    exact hperm

/-- The state in which the first dialog of an exchange is presented. -/
def presented (s : State) (two : CardRef × CardRef) (deck : CardDeck) : State :=
  { s with vc.cardDeck := deck, vc.twoCards := some two }

/-- The user starts an exchange in a game of two players. -/
theorem exchange_presented :
    ∃ y₀ y two deck, openSession (lobbyOf "user" ["Charlie Puth"] []) 0
        (List.range 15) [4, 8] = .ok y₀ ∧
      run stepSession y₀ (.start :: userPresses .exchange) = .ok y ∧
      give2Cards y.game.vc.cardDeck 0 0 = .ok (two, deck) ∧
      [y.game.world.slot y.game.vc.user .first, two.1, two.2].Nodup := by
  have hlast : lastStep stepSession
      (openSession (lobbyOf "user" ["Charlie Puth"] []) 0 (List.range 15)
        [4, 8]) (.start :: userPresses .exchange) .endGame
      (fun y _ => (give2Cards y.game.vc.cardDeck 0 0).toOption.isSome) =
        true := by
    decide +kernel
  obtain ⟨y₀, y, -, hopen, hrun, -, hP⟩ := exists_of_lastStep hlast
  obtain ⟨⟨two, deck⟩, hdraw⟩ := Option.isSome_iff_exists.mp hP
  rw [toOption_eq_some] at hdraw
  have hin := (Running.of_run (lobbyOf_one "user" "Charlie Puth")
    hopen hrun).inPlay
  have hoffers := hin.shows.offers hdraw
  exact ⟨y₀, y, two, deck, hopen, hrun, hdraw,
    hoffers.nodup hin.user_mem .first⟩

theorem dialog_conserves_iff_both :
    ∃ (y : Session) (two : CardRef × CardRef) (deck : CardDeck) (s' : State),
      give2Cards y.game.vc.cardDeck 0 0 = .ok (two, deck) ∧
      deliver (presented y.game two deck) ⟨two, 0⟩ [.first, .second, .keep] =
        .ok s' ∧
      Conserves (presented y.game two deck) .first s' := by
  obtain ⟨-, y, two, deck, -, -, hdraw, hnodup⟩ := exchange_presented
  obtain ⟨s', hrun, hiff⟩ := dialog_conserves_iff
    (s := presented y.game two deck) (Or.inl ⟨rfl, rfl⟩) rfl hnodup
    [.first, .second, .keep]
  exact ⟨y, two, deck, s', hdraw, hrun, hiff.mpr (by decide)⟩

/-- A long press that is delivered twice puts the chosen card into the hand and
back into the live pair, and the card of the hand is lost. -/
theorem long_press_twice :
    ∃ y₀ y two deck s', openSession (lobbyOf "user" ["Charlie Puth"] []) 0
        (List.range 15) [4, 8] = .ok y₀ ∧
      run stepSession y₀ (.start :: userPresses .exchange) = .ok y ∧
      give2Cards y.game.vc.cardDeck 0 0 = .ok (two, deck) ∧
      deliver (presented y.game two deck) ⟨two, 0⟩ [.first, .first] =
        .ok s' ∧
      offeredCards s' .first = [two.1, two.1, two.2] ∧
      ¬ (offeredCards s' .first).Perm
        (offeredCards (presented y.game two deck) .first) := by
  obtain ⟨y₀, y, ⟨a, b⟩, deck, hopen, hstart, hdraw, hnodup⟩ :=
    exchange_presented
  obtain ⟨s', hrun, h', -⟩ := deliver_trio (a := a) (b := b)
    (s := presented y.game (a, b) deck)
    (t := ⟨y.game.world.slot y.game.vc.user .first, a, b⟩)
    (Or.inl ⟨rfl, rfl⟩) ⟨rfl, rfl⟩ [.first, .first]
  have hoffered : offeredCards s' .first = [a, a, b] := h'.offeredCards
  refine ⟨y₀, y, (a, b), deck, s', hopen, hstart, hdraw, hrun, hoffered, ?_⟩
  intro hperm
  rw [hoffered] at hperm
  have hdup := hperm.nodup_iff.mpr hnodup
  simp at hdup

end Coup
