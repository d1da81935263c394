import Coup.Game.Lobby
import Coup.Game.Session

/-!
# The handshake of the exchange dialogs

In the exchange case of `actOnMove` the game thread asks for a dialog and spins
on `switchSegue`, and the main thread sets it when the dialog is answered.  The
flag is reset before the first dialog is presented, but after the second one
and a sleep.  An answer to the second dialog that comes before this reset is
lost, and any later one is not.
-/

namespace Coup

open Coup.Support

/-- Where the game thread stands in the exchange case. -/
inductive Spot
  /-- Before the first `switchSegue = false`. -/
  | start
  | offerFirst
  | waitFirst
  | offerSecond
  /-- The `sleep(1)` after the second dialog is presented. -/
  | asleep
  | waitSecond
  /-- The `sleep(1)` after the second wait. -/
  | awake
  /-- At `get2CardsBackNShuffle`. -/
  | finished
  deriving DecidableEq, Repr

/-- The dialog on the screen: none or answered, presented, or answered as far
as `applyExchange` but not yet `switchButton`. -/
inductive Screen
  | closed
  | opened (d : Dialog)
  | applied
  deriving DecidableEq, Repr

structure Handshake where
  game : State
  spot : Spot
  switchSegue : Bool
  screen : Screen

/-- A step of the game thread, or one of the two steps of an answer. -/
inductive Signal
  | thread
  | answer (a : ExchangeAnswer)
  | switchButton
  deriving DecidableEq, Repr

/-- One step of the game thread. -/
def threadStep (y : Handshake) : Except Fault Handshake :=
  match y.spot with
  | .start => .ok { y with switchSegue := false, spot := .offerFirst }
  | .offerFirst =>
      if (y.game.world.held y.game.vc.user .first).revealed = false then do
        let twoCards ← orFault .trap y.game.vc.twoCards
        pure { y with screen := .opened ⟨twoCards, 0⟩, spot := .waitFirst }
      else .ok { y with spot := .offerSecond }
  | .waitFirst =>
      if y.switchSegue then .ok { y with spot := .offerSecond } else .ok y
  | .offerSecond =>
      if (y.game.world.held y.game.vc.user .second).revealed = false then do
        let twoCards ← orFault .trap y.game.vc.twoCards
        pure { y with screen := .opened ⟨twoCards, 2⟩, spot := .asleep }
      else .ok { y with spot := .finished }
  | .asleep => .ok { y with switchSegue := false, spot := .waitSecond }
  | .waitSecond =>
      if y.switchSegue then .ok { y with spot := .awake } else .ok y
  | .awake => .ok { y with switchSegue := false, spot := .finished }
  | .finished => .error .refused

def stepHandshake (y : Handshake) : Signal → Except Fault Handshake
  | .thread => threadStep y
  | .answer a =>
      match y.screen with
      | .opened d => do
          let s ← answerDialog y.game d a
          pure { y with game := s, screen := .applied }
      | _ => .error .refused
  | .switchButton =>
      if y.screen = .applied then
        .ok { y with switchSegue := true, screen := .closed }
      else .error .refused

/-- The exchange case up to `give2Cards`; the flag may have any value. -/
def openHandshake (s : State) (draw1 draw2 : ℕ) (switchSegue : Bool) :
    Except Fault Handshake := do
  let (two, cardDeck) ← give2Cards s.vc.cardDeck draw1 draw2
  pure
    { game := { s with vc.cardDeck := cardDeck, vc.twoCards := some two }
      spot := .start, switchSegue, screen := .closed }

/-- The game thread spins on the flag. -/
def Waits (y : Handshake) : Prop :=
  y.spot = .waitFirst ∨ y.spot = .waitSecond

/-! ## What a step can do -/

/-- The moves of the game thread. -/
inductive ThreadMove (y : Handshake) : Handshake → Prop
  | start (hspot : y.spot = .start) :
      ThreadMove y { y with switchSegue := false, spot := .offerFirst }
  | presentFirst (two : CardRef × CardRef) (hspot : y.spot = .offerFirst)
      (hdown : (y.game.world.held y.game.vc.user .first).revealed = false)
      (htwo : y.game.vc.twoCards = some two) :
      ThreadMove y { y with screen := .opened ⟨two, 0⟩, spot := .waitFirst }
  | skipFirst (hspot : y.spot = .offerFirst)
      (hup : ¬ (y.game.world.held y.game.vc.user .first).revealed = false) :
      ThreadMove y { y with spot := .offerSecond }
  | leaveFirst (hspot : y.spot = .waitFirst) (hon : y.switchSegue = true) :
      ThreadMove y { y with spot := .offerSecond }
  | presentSecond (two : CardRef × CardRef) (hspot : y.spot = .offerSecond)
      (hdown : (y.game.world.held y.game.vc.user .second).revealed = false)
      (htwo : y.game.vc.twoCards = some two) :
      ThreadMove y { y with screen := .opened ⟨two, 2⟩, spot := .asleep }
  | skipSecond (hspot : y.spot = .offerSecond)
      (hup : ¬ (y.game.world.held y.game.vc.user .second).revealed = false) :
      ThreadMove y { y with spot := .finished }
  | reset (hspot : y.spot = .asleep) :
      ThreadMove y { y with switchSegue := false, spot := .waitSecond }
  | leaveSecond (hspot : y.spot = .waitSecond) (hon : y.switchSegue = true) :
      ThreadMove y { y with spot := .awake }
  | finish (hspot : y.spot = .awake) :
      ThreadMove y { y with switchSegue := false, spot := .finished }
  | spin (hwaits : Waits y) (hoff : y.switchSegue = false) : ThreadMove y y

theorem threadStep_spec {y y' : Handshake} (h : threadStep y = .ok y') :
    ThreadMove y y' := by
  unfold threadStep at h
  cases hspot : y.spot <;> simp only [hspot] at h
  case start => cases h; exact .start hspot
  case offerFirst =>
    split at h
    next hdown =>
      rw [bind_eq_ok] at h
      obtain ⟨two, htwo, h⟩ := h
      cases h
      exact .presentFirst two hspot hdown (orFault_eq_ok.mp htwo)
    next hup => cases h; exact .skipFirst hspot hup
  case waitFirst =>
    split at h
    next hon => cases h; exact .leaveFirst hspot hon
    next hoff =>
      cases h
      exact .spin (Or.inl hspot) (Bool.eq_false_of_not_eq_true hoff)
  case offerSecond =>
    split at h
    next hdown =>
      rw [bind_eq_ok] at h
      obtain ⟨two, htwo, h⟩ := h
      cases h
      exact .presentSecond two hspot hdown (orFault_eq_ok.mp htwo)
    next hup => cases h; exact .skipSecond hspot hup
  case asleep => cases h; exact .reset hspot
  case waitSecond =>
    split at h
    next hon => cases h; exact .leaveSecond hspot hon
    next hoff =>
      cases h
      exact .spin (Or.inr hspot) (Bool.eq_false_of_not_eq_true hoff)
  case awake => cases h; exact .finish hspot
  case finished => cases h

theorem stepHandshake_answer {y y' : Handshake} {a : ExchangeAnswer}
    (h : stepHandshake y (.answer a) = .ok y') :
    ∃ d s, y.screen = .opened d ∧ answerDialog y.game d a = .ok s ∧
      y' = { y with game := s, screen := .applied } := by
  rw [stepHandshake] at h
  split at h
  next d hopened =>
    rw [bind_eq_ok] at h
    obtain ⟨s, hanswer, h⟩ := h
    cases h
    exact ⟨d, s, hopened, hanswer, rfl⟩
  next => cases h

theorem stepHandshake_switchButton {y y' : Handshake}
    (h : stepHandshake y .switchButton = .ok y') :
    y.screen = .applied ∧
      y' = { y with switchSegue := true, screen := .closed } := by
  rw [stepHandshake] at h
  split at h
  next happlied =>
    cases h
    exact ⟨happlied, rfl⟩
  next => cases h

/-! ## The flag -/

/-- What the flag says about the dialog, in every run. -/
def FlagSound (y : Handshake) : Prop :=
  match y.spot with
  | .waitFirst => y.switchSegue = true ↔ y.screen = .closed
  | .waitSecond => y.switchSegue = true → y.screen = .closed
  | .offerFirst => y.switchSegue = false ∧ y.screen = .closed
  | .asleep => True
  | _ => y.screen = .closed

/-- What the flag says when no answer was given before its reset. -/
def FlagTimely (y : Handshake) : Prop :=
  match y.spot with
  | .asleep => y.screen ≠ .closed
  | .waitSecond => y.screen = .closed → y.switchSegue = true
  | _ => True

section Step

variable {y y' : Handshake} {e : Signal}

theorem FlagSound.thread (h : FlagSound y) (hmove : ThreadMove y y') :
    FlagSound y' := by
  unfold FlagSound at h
  cases hmove with
  | start hspot => exact ⟨rfl, by simpa [hspot] using h⟩
  | presentFirst two hspot hdown htwo =>
      have hflag : y.switchSegue = false := by simp [hspot] at h; exact h.1
      simp [FlagSound, hflag]
  | skipFirst hspot hup =>
      have hclosed : y.screen = .closed := by simp [hspot] at h; exact h.2
      exact hclosed
  | leaveFirst hspot hon =>
      have hclosed : y.screen = .closed := by simpa [hspot, hon] using h
      exact hclosed
  | presentSecond two hspot hdown htwo => trivial
  | skipSecond hspot hup =>
      have hclosed : y.screen = .closed := by simpa [hspot] using h
      exact hclosed
  | reset hspot => exact fun hon => by cases hon
  | leaveSecond hspot hon =>
      have hclosed : y.screen = .closed := by simpa [hspot, hon] using h
      exact hclosed
  | finish hspot =>
      have hclosed : y.screen = .closed := by simpa [hspot] using h
      exact hclosed
  | spin hwaits hoff => exact h

/-- While a dialog is on the screen the thread waits, or sleeps before it
does. -/
theorem FlagSound.spot_of_open (h : FlagSound y) (hopen : y.screen ≠ .closed) :
    Waits y ∨ y.spot = .asleep := by
  unfold FlagSound at h
  cases hspot : y.spot with
  | waitFirst => exact .inl (.inl hspot)
  | waitSecond => exact .inl (.inr hspot)
  | asleep => exact .inr rfl
  | offerFirst =>
      rw [hspot] at h
      exact absurd h.2 hopen
  | start | offerSecond | awake | finished =>
      rw [hspot] at h
      exact absurd h hopen

/-- The flag that the thread waits for is down while a dialog is open. -/
theorem FlagSound.not_raised (h : FlagSound y) (hwaits : Waits y)
    (hopen : y.screen ≠ .closed) : ¬ y.switchSegue = true := by
  intro hon
  unfold FlagSound at h
  rcases hwaits with hw | hw
  · rw [hw] at h
    exact hopen (h.mp hon)
  · rw [hw] at h
    exact hopen (h hon)

theorem FlagSound.step (h : FlagSound y) (hstep : stepHandshake y e = .ok y') :
    FlagSound y' := by
  cases e with
  | thread => exact h.thread (threadStep_spec hstep)
  | answer a =>
      obtain ⟨d, s, hopened, -, rfl⟩ := stepHandshake_answer hstep
      have hopen : y.screen ≠ .closed := by simp [hopened]
      rcases h.spot_of_open hopen with hwaits | hasleep
      · have hoff := h.not_raised hwaits hopen
        unfold FlagSound
        rcases hwaits with hw | hw
        · simpa [hw] using hoff
        · simpa [hw] using hoff
      · simp [FlagSound, hasleep]
  | switchButton =>
      obtain ⟨happlied, rfl⟩ := stepHandshake_switchButton hstep
      have hopen : y.screen ≠ .closed := by simp [happlied]
      rcases h.spot_of_open hopen with (hw | hw) | hasleep
      · simp [FlagSound, hw]
      · simp [FlagSound, hw]
      · simp [FlagSound, hasleep]

theorem FlagTimely.step (h : FlagTimely y)
    (hstep : stepHandshake y e = .ok y')
    (htimely : e = .switchButton → y.spot ≠ .asleep) : FlagTimely y' := by
  cases e with
  | thread =>
      unfold FlagTimely at h
      cases threadStep_spec hstep with
      | presentSecond two hspot hdown htwo => simp [FlagTimely]
      | reset hspot =>
          have hopen : y.screen ≠ .closed := by simpa [hspot] using h
          exact fun hclosed => absurd hclosed hopen
      | spin hwaits hoff => exact h
      | start hspot | presentFirst two hspot hdown htwo | skipFirst hspot hup
        | leaveFirst hspot hon | skipSecond hspot hup | leaveSecond hspot hon
        | finish hspot => trivial
  | answer a =>
      obtain ⟨d, s, -, -, rfl⟩ := stepHandshake_answer hstep
      unfold FlagTimely
      split
      next =>
        intro hclosed
        cases hclosed
      next =>
        intro hclosed
        cases hclosed
      next => trivial
  | switchButton =>
      obtain ⟨-, rfl⟩ := stepHandshake_switchButton hstep
      unfold FlagTimely
      split
      next hasleep => exact absurd hasleep (htimely rfl)
      next => exact fun _ => rfl
      next => trivial

/-- A wait is left only once the dialog on the screen was answered. -/
theorem FlagSound.closed_of_leaves (h : FlagSound y) (hwaits : Waits y)
    (hstep : stepHandshake y .thread = .ok y') (hleaves : y'.spot ≠ y.spot) :
    y.screen = .closed := by
  have hon : y.switchSegue = true := by
    cases threadStep_spec hstep with
    | leaveFirst hspot hon => exact hon
    | leaveSecond hspot hon => exact hon
    | spin _ _ => exact absurd rfl hleaves
    | start hspot | presentFirst two hspot hdown htwo | skipFirst hspot hup
      | presentSecond two hspot hdown htwo | skipSecond hspot hup
      | reset hspot | finish hspot =>
        rcases hwaits with hw | hw <;> rw [hspot] at hw <;> cases hw
  by_contra hopen
  exact h.not_raised hwaits hopen hon

end Step

/-! ## The cards -/

/-- The dialog `d` is the one that `offerExchange` presents for position `i`. -/
structure Presents (s : State) (i : Slot) (caseNum : ℕ) (d : Dialog) :
    Prop where
  down : (s.world.held s.vc.user i).revealed = false
  twoCards : s.vc.twoCards = some d.twoCards
  caseNum : d.caseNum = caseNum

/-- The first dialog was answered, or was not needed. -/
def FirstDone (s₀ s : State) : Prop :=
  ∃ a, offerExchange s₀ .first 0 a = .ok s

/-- Both dialogs were answered, or were not needed. -/
def BothDone (s₀ s : State) : Prop :=
  ∃ s₁, FirstDone s₀ s₁ ∧ ∃ a, offerExchange s₁ .second 2 a = .ok s

/-- How far the cards have followed the answers. -/
def Follows (s₀ : State) (y : Handshake) : Prop :=
  match y.spot, y.screen with
  | .start, _ | .offerFirst, _ => y.game = s₀
  | .waitFirst, .opened d => y.game = s₀ ∧ Presents s₀ .first 0 d
  | .waitFirst, _ | .offerSecond, _ => FirstDone s₀ y.game
  | .asleep, .opened d | .waitSecond, .opened d =>
      FirstDone s₀ y.game ∧ Presents y.game .second 2 d
  | _, _ => BothDone s₀ y.game

theorem Presents.offerExchange {s s' : State} {i : Slot} {n : ℕ} {d : Dialog}
    {a : ExchangeAnswer} (h : Presents s i n d)
    (hanswer : answerDialog s d a = .ok s') :
    offerExchange s i n a = .ok s' := by
  obtain ⟨two, caseNum⟩ := d
  obtain rfl : caseNum = n := h.caseNum
  rw [Coup.offerExchange, if_pos h.down, h.twoCards]
  exact hanswer

theorem offerExchange_of_up {s : State} {i : Slot} (n : ℕ)
    (hup : ¬ (s.world.held s.vc.user i).revealed = false)
    (a : ExchangeAnswer) : offerExchange s i n a = .ok s := by
  rw [offerExchange, if_neg hup]

section Cards

variable {s₀ : State} {y y' : Handshake} {e : Signal}

theorem Follows.thread (h : Follows s₀ y) (hflag : FlagSound y)
    (hmove : ThreadMove y y') : Follows s₀ y' := by
  unfold Follows at h
  unfold FlagSound at hflag
  cases hmove with
  | start hspot => simpa [Follows, hspot] using h
  | presentFirst two hspot hdown htwo =>
      have hgame : y.game = s₀ := by simpa [hspot] using h
      exact ⟨hgame, hgame ▸ ⟨hdown, htwo, rfl⟩⟩
  | skipFirst hspot hup =>
      have hgame : y.game = s₀ := by simpa [hspot] using h
      exact ⟨.keep, hgame ▸ offerExchange_of_up 0 hup .keep⟩
  | leaveFirst hspot hon =>
      have hclosed : y.screen = .closed := by simpa [hspot, hon] using hflag
      simpa [Follows, hspot, hclosed] using h
  | presentSecond two hspot hdown htwo =>
      have hdone : FirstDone s₀ y.game := by simpa [hspot] using h
      exact ⟨hdone, hdown, htwo, rfl⟩
  | skipSecond hspot hup =>
      have hdone : FirstDone s₀ y.game := by simpa [hspot] using h
      exact ⟨y.game, hdone, .keep, offerExchange_of_up 2 hup .keep⟩
  | reset hspot =>
      cases hscreen : y.screen <;> simpa [Follows, hspot, hscreen] using h
  | leaveSecond hspot hon =>
      have hclosed : y.screen = .closed := by simpa [hspot, hon] using hflag
      simpa [Follows, hspot, hclosed] using h
  | finish hspot => simpa [Follows, hspot] using h
  | spin hwaits hoff => exact h

theorem Follows.step (h : Follows s₀ y) (hflag : FlagSound y)
    (hstep : stepHandshake y e = .ok y') : Follows s₀ y' := by
  cases e with
  | thread => exact h.thread hflag (threadStep_spec hstep)
  | answer a =>
      obtain ⟨d, s, hopened, hanswer, rfl⟩ := stepHandshake_answer hstep
      have hopen : y.screen ≠ .closed := by simp [hopened]
      unfold Follows at h ⊢
      rcases hflag.spot_of_open hopen with (hw | hw) | hw
      · simp only [hw, hopened] at h ⊢
        obtain ⟨hgame, hpresents⟩ := h
        exact ⟨a, hpresents.offerExchange (hgame ▸ hanswer)⟩
      · simp only [hw, hopened] at h ⊢
        obtain ⟨hdone, hpresents⟩ := h
        exact ⟨y.game, hdone, a, hpresents.offerExchange hanswer⟩
      · simp only [hw, hopened] at h ⊢
        obtain ⟨hdone, hpresents⟩ := h
        exact ⟨y.game, hdone, a, hpresents.offerExchange hanswer⟩
  | switchButton =>
      obtain ⟨happlied, rfl⟩ := stepHandshake_switchButton hstep
      have hopen : y.screen ≠ .closed := by simp [happlied]
      unfold Follows at h ⊢
      rcases hflag.spot_of_open hopen with (hw | hw) | hw
      · simpa only [hw, happlied] using h
      · simpa only [hw, happlied] using h
      · simpa only [hw, happlied] using h

theorem applyExchange_twoCards {s s' : State} {c : CardRef} {n : ℕ}
    (h : applyExchange s c n = .ok s') : s'.vc.twoCards.isSome := by
  rw [applyExchange, bind_eq_ok] at h
  obtain ⟨two, htwo, h⟩ := h
  split at h
  case h_5 => cases h; exact Option.isSome_of_mem (orFault_eq_ok.mp htwo)
  all_goals cases h; rfl

theorem answerDialog_twoCards {s s' : State} {d : Dialog} {a : ExchangeAnswer}
    (h : answerDialog s d a = .ok s') (htwo : s.vc.twoCards.isSome) :
    s'.vc.twoCards.isSome := by
  rcases answerDialog_cases s d a with heq | ⟨c, n, -, heq⟩
  · rw [heq] at h
    cases h
    exact htwo
  · rw [heq] at h
    exact applyExchange_twoCards h

/-- The two drawn cards are at hand for as long as the dialogs need them. -/
theorem twoCards_step (hstep : stepHandshake y e = .ok y')
    (htwo : y.game.vc.twoCards.isSome) : y'.game.vc.twoCards.isSome := by
  cases e with
  | thread =>
      have hgame : y'.game = y.game := by
        cases threadStep_spec hstep <;> rfl
      rwa [hgame]
  | answer a =>
      obtain ⟨d, s, -, hanswer, rfl⟩ := stepHandshake_answer hstep
      exact answerDialog_twoCards hanswer htwo
  | switchButton =>
      obtain ⟨-, rfl⟩ := stepHandshake_switchButton hstep
      exact htwo

end Cards

/-! ## Progress -/

/-- How many moves are at most left to the game thread. -/
def Spot.left : Spot → ℕ
  | .start => 7
  | .offerFirst => 6
  | .waitFirst => 5
  | .offerSecond => 4
  | .asleep => 3
  | .waitSecond => 2
  | .awake => 1
  | .finished => 0

/-- What a run keeps whose second answer was not too early. -/
structure Timely (s₀ : State) (y : Handshake) : Prop where
  sound : FlagSound y
  timely : FlagTimely y
  follows : Follows s₀ y
  twoCards : y.game.vc.twoCards.isSome

section Progress

variable {s₀ : State} {y y' : Handshake} {e : Signal}

theorem Timely.step (h : Timely s₀ y) (hstep : stepHandshake y e = .ok y')
    (htimely : e = .switchButton → y.spot ≠ .asleep) : Timely s₀ y' where
  sound := h.sound.step hstep
  timely := h.timely.step hstep htimely
  follows := h.follows.step h.sound hstep
  twoCards := twoCards_step hstep h.twoCards

/-- With no dialog on the screen the thread has a move, and comes closer to
the end by it. -/
theorem Timely.moves (h : Timely s₀ y) (hclosed : y.screen = .closed)
    (hrest : y.spot ≠ .finished) :
    ∃ y', stepHandshake y .thread = .ok y' ∧ y'.spot.left < y.spot.left ∧
      (y'.screen = .closed ∨ ∃ d, y'.screen = .opened d) := by
  obtain ⟨hsound, htimely, -, htwo⟩ := h
  obtain ⟨two, htwo⟩ := Option.isSome_iff_exists.mp htwo
  unfold FlagSound at hsound
  unfold FlagTimely at htimely
  simp only [stepHandshake, threadStep]
  cases hspot : y.spot <;> simp only [hspot] at hsound htimely ⊢
  case start => exact ⟨_, rfl, by simp [Spot.left], Or.inl hclosed⟩
  case offerFirst =>
    split
    next => exact ⟨_, by rw [htwo]; rfl, by simp [Spot.left], Or.inr ⟨_, rfl⟩⟩
    next => exact ⟨_, rfl, by simp [Spot.left], Or.inl hclosed⟩
  case waitFirst =>
    rw [if_pos (hsound.mpr hclosed)]
    exact ⟨_, rfl, by simp [Spot.left], Or.inl hclosed⟩
  case offerSecond =>
    split
    next => exact ⟨_, by rw [htwo]; rfl, by simp [Spot.left], Or.inr ⟨_, rfl⟩⟩
    next => exact ⟨_, rfl, by simp [Spot.left], Or.inl hclosed⟩
  case asleep => exact absurd hclosed htimely
  case waitSecond =>
    rw [if_pos (htimely hclosed)]
    exact ⟨_, rfl, by simp [Spot.left], Or.inl hclosed⟩
  case awake => exact ⟨_, rfl, by simp [Spot.left], Or.inl hclosed⟩
  case finished => exact absurd hspot hrest

/-- Left alone, the thread presents the next dialog or finishes. -/
theorem Timely.progress (h : Timely s₀ y) (hclosed : y.screen = .closed) :
    ∃ n y', run stepHandshake y (List.replicate n .thread) = .ok y' ∧
      (y'.spot = .finished ∨ ∃ d, y'.screen = .opened d) := by
  induction hleft : y.spot.left using Nat.strong_induction_on generalizing y with
  | _ left ih =>
      by_cases hrest : y.spot = .finished
      · exact ⟨0, y, rfl, Or.inl hrest⟩
      · obtain ⟨y₁, hstep, hless, hscreen⟩ := h.moves hclosed hrest
        rcases hscreen with hclosed₁ | hopened
        · have h₁ := h.step hstep (fun he => by cases he)
          obtain ⟨n, y', hrun, hend⟩ :=
            ih _ (hleft ▸ hless) h₁ hclosed₁ rfl
          refine ⟨n + 1, y', ?_, hend⟩
          rw [List.replicate_succ, run_cons, hstep, bind_ok, hrun]
        · refine ⟨1, y₁, ?_, Or.inr hopened⟩
          rw [List.replicate_one, run_cons, hstep, bind_ok, run_nil]

end Progress

/-! ## Runs -/

section Run

variable {s : State} {draw1 draw2 : ℕ} {b : Bool} {y₀ y : Handshake}
  {es : List Signal}

theorem Timely.of_open (hopen : openHandshake s draw1 draw2 b = .ok y₀) :
    Timely y₀.game y₀ := by
  rw [openHandshake, bind_eq_ok] at hopen
  obtain ⟨⟨two, cardDeck⟩, -, hopen⟩ := hopen
  cases hopen
  exact ⟨rfl, trivial, rfl, rfl⟩

/-- The dialogs and the thread together compute what the exchange of one turn
computes from the two answers. -/
theorem handshake_exchange {caller : PlayerRef}
    (hname : (s.world.player caller).name = s.world.username)
    (hopen : openHandshake s draw1 draw2 b = .ok y₀)
    (hrun : run stepHandshake y₀ es = .ok y) (hfinished : y.spot = .finished)
    (shuffle : List ℕ) :
    ∃ answer1 answer2,
      exchange s caller ⟨draw1, draw2, answer1, answer2, shuffle⟩ = (do
        let two ← orFault .trap y.game.vc.twoCards
        let cardDeck ← get2CardsBackNShuffle y.game.vc.cardDeck two shuffle
        pure { y.game with vc.cardDeck := cardDeck }) := by
  have hboth : FlagSound y ∧ Follows y₀.game y :=
    run_invariant (I := fun z => FlagSound z ∧ Follows y₀.game z)
      (fun _ _ _ h hstep => ⟨h.1.step hstep, h.2.step h.1 hstep⟩) hrun
      ⟨(Timely.of_open hopen).sound, (Timely.of_open hopen).follows⟩
  have hdone : BothDone y₀.game y.game := by
    have hfollows := hboth.2
    unfold Follows at hfollows
    simpa [hfinished] using hfollows
  obtain ⟨s₁, ⟨answer1, hfirst⟩, answer2, hsecond⟩ := hdone
  rw [openHandshake, bind_eq_ok] at hopen
  obtain ⟨⟨two, cardDeck⟩, hgive, hopen⟩ := hopen
  cases hopen
  refine ⟨answer1, answer2, ?_⟩
  rw [exchange, hgive, bind_ok]
  simp only [exchangeCards, hname, if_true, hfirst, bind_ok, hsecond]

/-- Once an answer is lost, nothing moves any more. -/
theorem frozen (hwaits : Waits y) (hclosed : y.screen = .closed)
    (hoff : y.switchSegue = false) {y' : Handshake}
    (hrun : run stepHandshake y es = .ok y') : y' = y := by
  refine run_invariant (I := fun z => z = y) ?_ hrun rfl
  rintro z e z' rfl hstep
  cases e with
  | thread =>
      cases threadStep_spec hstep with
      | spin _ _ => rfl
      | leaveFirst _ hon | leaveSecond _ hon => rw [hoff] at hon; cases hon
      | start hspot | presentFirst two hspot hdown htwo | skipFirst hspot hup
        | presentSecond two hspot hdown htwo | skipSecond hspot hup
        | reset hspot | finish hspot =>
          rcases hwaits with hw | hw <;> rw [hspot] at hw <;> cases hw
  | answer a =>
      obtain ⟨d, s, hopened, -⟩ := stepHandshake_answer hstep
      rw [hclosed] at hopened
      cases hopened
  | switchButton =>
      obtain ⟨happlied, -⟩ := stepHandshake_switchButton hstep
      rw [hclosed] at happlied
      cases happlied

/-- Unless the second dialog is answered before `switchSegue` is reset, a wait
ends only when its dialog was answered, and then it does end: with every
presented dialog answered, the thread goes on to the next one or to
`get2CardsBackNShuffle`. -/
theorem answers_not_lost (hopen : openHandshake s draw1 draw2 b = .ok y₀)
    (hrun : run stepHandshake y₀ es = .ok y)
    (htimely : EachStep stepHandshake
      (fun y e _ => e = .switchButton → y.spot ≠ .asleep) y₀ es) :
    (∀ y', Waits y → stepHandshake y .thread = .ok y' → y'.spot ≠ y.spot →
      y.screen = .closed ∧ (y.spot = .waitFirst → FirstDone y₀.game y.game) ∧
        (y.spot = .waitSecond → BothDone y₀.game y.game)) ∧
      ¬ (Waits y ∧ y.screen = .closed ∧ y.switchSegue = false) ∧
      (y.screen = .closed →
        ∃ n y', run stepHandshake y (List.replicate n .thread) = .ok y' ∧
          (y'.spot = .finished ∨ ∃ d, y'.screen = .opened d)) := by
  have h : Timely y₀.game y :=
    run_invariant_of_eachStep (fun _ _ _ h hstep ht => h.step hstep ht) hrun
      htimely (Timely.of_open hopen)
  refine ⟨fun y' hwaits hstep hleaves => ?_, ?_, h.progress⟩
  · have hclosed := h.sound.closed_of_leaves hwaits hstep hleaves
    have hfollows := h.follows
    unfold Follows at hfollows
    refine ⟨hclosed, fun hspot => ?_, fun hspot => ?_⟩
    · simpa only [hspot, hclosed] using hfollows
    · simpa only [hspot, hclosed] using hfollows
  · rintro ⟨hwaits, hclosed, hoff⟩
    have hsound := h.sound
    have htimely' := h.timely
    unfold FlagSound at hsound
    unfold FlagTimely at htimely'
    rcases hwaits with hspot | hspot
    · simp only [hspot, hclosed, hoff] at hsound
      simp at hsound
    · simp only [hspot, hclosed, hoff] at htimely'
      simp at htimely'

end Run

/-- The exchange case in the first turn of a game of two players. -/
def firstExchange : Except Fault Handshake := do
  let s ← viewDidLoad (lobbyOf "user" ["Charlie Puth"] []) 0 (List.range 15)
    [4, 8]
  openHandshake s 0 0 false

/-- The user keeps both cards and takes the time to read the second dialog. -/
def patientAnswers : List Signal :=
  [.thread, .thread, .answer .keep, .switchButton, .thread, .thread, .thread,
    .answer .keep, .switchButton]

theorem answers_not_lost_patient :
    ∃ y₀ y, firstExchange = .ok y₀ ∧
      run stepHandshake y₀ patientAnswers = .ok y ∧ y.screen = .closed ∧
      ∃ n y', run stepHandshake y (List.replicate n .thread) = .ok y' ∧
        (y'.spot = .finished ∨ ∃ d, y'.screen = .opened d) := by
  have hcheck : checkFrom stepHandshake
      (fun y e _ => decide (e = .switchButton → y.spot ≠ .asleep))
      (fun y => decide (y.screen = .closed)) firstExchange patientAnswers
        = true := by
    decide +kernel
  obtain ⟨y₀, y, hopen, hrun, heach, hclosed⟩ := exists_of_checkFrom hcheck
  have hclosed := of_decide_eq_true hclosed
  have hbegin := hopen
  rw [firstExchange, bind_eq_ok] at hbegin
  obtain ⟨s, -, hbegin⟩ := hbegin
  have htimely := heach.imp fun _ _ _ _ _ _ _ h => of_decide_eq_true h
  exact ⟨y₀, y, hopen, hrun, hclosed,
    (answers_not_lost hbegin hrun htimely).2.2 hclosed⟩

/-- The user answers the second dialog as quickly as the first. -/
def quickAnswers : List Signal :=
  [.thread, .thread, .answer .keep, .switchButton, .thread, .thread,
    .answer .keep, .switchButton, .thread]

/-- The quick answer is overwritten by the reset, and the game stands still. -/
theorem answer_lost :
    ∃ y₀ y, firstExchange = .ok y₀ ∧
      run stepHandshake y₀ quickAnswers = .ok y ∧
      (Waits y ∧ y.screen = .closed ∧ y.switchSegue = false) ∧
      ∀ es y', run stepHandshake y es = .ok y' → y' = y := by
  have hcheck : checkFrom stepHandshake (fun _ _ _ => true)
      (fun y => decide (y.spot = .waitSecond ∧ y.screen = .closed ∧
        y.switchSegue = false)) firstExchange quickAnswers = true := by
    decide +kernel
  obtain ⟨y₀, y, hopen, hrun, -, hlost⟩ := exists_of_checkFrom hcheck
  obtain ⟨hspot, hclosed, hoff⟩ := of_decide_eq_true hlost
  exact ⟨y₀, y, hopen, hrun, ⟨Or.inr hspot, hclosed, hoff⟩,
    fun es y' h => frozen (Or.inr hspot) hclosed hoff h⟩

end Coup
