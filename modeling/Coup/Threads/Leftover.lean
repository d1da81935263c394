import Coup.Threads.Display
import Coup.Threads.Supply

/-!
# The loop of a game that was left

The End Game button ends the loop at its next look at `gameOn`.  Until then the
loop goes on with its turn, at a table that may no longer be its own:
`players` is a global.  `Harmless` says when what is left of the turn does not
come to ask anybody, to use an index that may be out of range or to log a move,
whoever is in `players`.
-/

namespace Coup

open Coup.Support

/-- The challenge round of `t` passes over every seat from `k` on: these
players have the name of the caller. -/
def SkipsFrom (y : Loop) (t : Turn) (k : ℕ) : Prop :=
  ∀ p ∈ y.game.world.players.drop k, (y.game.world.player p).name =
    (y.game.world.player t.curMove.caller).name

/-- The answer of the user, if there is one, ends the round. -/
def AnswerEnds (y : Loop) (t : Turn) : Prop :=
  y.game.vc.didPlayerChallengeOrAllow = true →
    y.game.vc.challengeMove.name = .challenge ∨
      SkipsFrom y t (y.game.vc.challengeTurnInd + 1)

/-- An AI that allows ends the round: `challengeTurnInd` and `turnInd` are
seats, and the round passes over the rest. -/
structure AllowEnds (y : Loop) (t : Turn) : Prop where
  slot : y.game.vc.challengeTurnInd < y.game.world.players.length
  turn : y.game.vc.turnInd < y.game.world.players.length
  rest : SkipsFrom y t (y.game.vc.challengeTurnInd + 1)

/-- What is left of the turn does not reach the players at the table. -/
def Harmless (y : Loop) : Prop :=
  match y.place with
  | .picked p =>
      (y.game.world.player p).name = y.game.world.username ∧
        y.game.vc.didPlayerMove = false
  | .chosen _ => False
  | .slot t _ => SkipsFrom y t y.game.vc.challengeTurnInd
  | .look t _ =>
      y.game.vc.challengeTurnInd < y.game.world.players.length ∧
        SkipsFrom y t y.game.vc.challengeTurnInd
  | .ask t _ p =>
      AnswerEnds y t ∧ (y.game.vc.didPlayerChallengeOrAllow = false →
        (y.game.world.player p).name = y.game.world.username ∨
          AllowEnds y t)
  | .test t _ _ | .send t _ _ => AnswerEnds y t
  | .use t curMove _ =>
      AnswerEnds y t ∧ (y.game.vc.didPlayerChallengeOrAllow = false →
        curMove.name = .challenge ∨ AllowEnds y t)
  | _ => True

instance (y : Loop) (t : Turn) (k : ℕ) : Decidable (SkipsFrom y t k) :=
  inferInstanceAs (Decidable (∀ p ∈ _, _))

instance (y : Loop) (t : Turn) : Decidable (AnswerEnds y t) :=
  inferInstanceAs (Decidable (_ → _))

instance (y : Loop) (t : Turn) : Decidable (AllowEnds y t) :=
  decidable_of_iff (_ ∧ _ ∧ _)
    ⟨fun h => ⟨h.1, h.2.1, h.2.2⟩, fun h => ⟨h.slot, h.turn, h.rest⟩⟩

instance (y : Loop) : Decidable (Harmless y) := by
  unfold Harmless
  split <;> infer_instance

/-- What still happens to a loop when nobody is at its screen. -/
def LoopEvent.unattended : LoopEvent → Bool
  | .thread _ | .deliver => true
  | .tap _ | .press _ | .endGame => false

/-- The turn whose move the thread executes on its next step. -/
def Place.executing : Place → Option Turn
  | .objected t o => if o.name = .allow then some t else none
  | .free t | .shown t _ _ => some t
  | _ => none

/-- If the next step is an exchange of the user, its dialogs offer the cards of
a player of `F`. -/
def OffersOwn (F : Footprint) (y : Loop) : Prop :=
  ∀ t ∈ y.place.executing, t.curMove.AsksUser y.game.world →
    y.game.vc.user ∈ F.players

theorem executing_act {place place' : Place} {t : Turn}
    (hplace : (∃ o, place = .objected t o ∧ o.name = .allow) ∧
        place' = .ending ∨
      place = .free t ∧ place' = .ending ∨
      ∃ theCard newCard, place = .shown t theCard newCard ∧
        place' = .acted t theCard newCard) : place.executing = some t := by
  rcases hplace with ⟨⟨o, rfl, hallow⟩, -⟩ | ⟨rfl, -⟩ | ⟨_, _, rfl, -⟩
  · exact if_pos hallow
  · rfl
  · rfl

/-- The loop of a game that was left, with the objects of `F`. -/
structure Leftover (F : Footprint) (y : Loop) : Prop where
  off : y.game.vc.gameOn = false
  owns : Owns F y.game
  place : y.place.Within F
  answer : y.game.vc.didPlayerChallengeOrAllow = true →
    y.game.vc.challengeMove.Within F
  harmless : Harmless y

/-- The same names at the same seats, for the same user. -/
structure SameSeats (w w' : World) : Prop where
  players : w'.players = w.players
  username : w'.username = w.username
  name : ∀ p, (w'.player p).name = (w.player p).name

theorem SameTable.seats {w w' : World} (h : SameTable w w') :
    SameSeats w w' :=
  ⟨h.players, h.username, h.name⟩

/-- The same point of the challenge round. -/
structure SameRound (vc vc' : GameViewController) : Prop where
  move : vc'.didPlayerMove = vc.didPlayerMove
  turn : vc'.turnInd = vc.turnInd
  slot : vc'.challengeTurnInd = vc.challengeTurnInd
  flag : vc'.didPlayerChallengeOrAllow = vc.didPlayerChallengeOrAllow
  answer : vc'.challengeMove = vc.challengeMove

theorem SameRound.refl (vc : GameViewController) : SameRound vc vc :=
  ⟨rfl, rfl, rfl, rfl, rfl⟩

theorem runBlock_sameRound (s : State) (block : Block) :
    SameRound s.vc (runBlock s block).vc := by
  cases block <;> exact ⟨rfl, rfl, rfl, rfl, rfl⟩

section Congr

variable {y y' : Loop} {t : Turn} {k : ℕ}

theorem SkipsFrom.congr (h : SkipsFrom y t k)
    (hseats : SameSeats y.game.world y'.game.world) : SkipsFrom y' t k := by
  intro p hp
  rw [hseats.players] at hp
  rw [hseats.name, hseats.name]
  exact h p hp

theorem AnswerEnds.congr (h : AnswerEnds y t)
    (hseats : SameSeats y.game.world y'.game.world)
    (hround : SameRound y.game.vc y'.game.vc) : AnswerEnds y' t := by
  rw [AnswerEnds, hround.flag, hround.answer, hround.slot]
  exact fun hon => (h hon).imp_right (·.congr hseats)

theorem AllowEnds.congr (h : AllowEnds y t)
    (hseats : SameSeats y.game.world y'.game.world)
    (hround : SameRound y.game.vc y'.game.vc) : AllowEnds y' t where
  slot := by rw [hround.slot, hseats.players]; exact h.slot
  turn := by rw [hround.turn, hseats.players]; exact h.turn
  rest := by rw [hround.slot]; exact h.rest.congr hseats

/-- Whether the rest of the turn is harmless depends on the seats and the
challenge round only. -/
theorem Harmless.congr (h : Harmless y)
    (hseats : SameSeats y.game.world y'.game.world)
    (hround : SameRound y.game.vc y'.game.vc) (hplace : y'.place = y.place) :
    Harmless y' := by
  unfold Harmless at h ⊢
  rw [hplace]
  cases hy : y.place <;> simp only [hy] at h ⊢
  case picked p =>
    rw [hround.move, hseats.name, hseats.username]
    exact h
  case slot t curMove =>
    rw [hround.slot]
    exact h.congr hseats
  case look t curMove =>
    rw [hround.slot, hseats.players]
    exact ⟨h.1, h.2.congr hseats⟩
  case ask t curMove p =>
    rw [hround.flag, hseats.name, hseats.username]
    exact ⟨h.1.congr hseats hround,
      fun hoff => (h.2 hoff).imp_right (·.congr hseats hround)⟩
  case test | send => exact AnswerEnds.congr h hseats hround
  case use t curMove p =>
    rw [hround.flag]
    exact ⟨h.1.congr hseats hround,
      fun hoff => (h.2 hoff).imp_right (·.congr hseats hround)⟩

end Congr

/-- The same players on the screen. -/
structure SameCast (vc vc' : GameViewController) : Prop where
  user : vc'.user = vc.user
  AIs : vc'.AIs = vc.AIs

theorem SameCast.refl (vc : GameViewController) : SameCast vc vc := ⟨rfl, rfl⟩

theorem SameCast.of_stays {F : Footprint} {s s' : State} (h : Stays F s s') :
    SameCast s.vc s'.vc := by
  constructor <;> rw [h.vc]

/-- A step that changes only objects of `F` and no global, seat or name. -/
structure Leaves (F : Footprint) (w w' : World) : Prop where
  table : SameTable w w'
  moveLog : w'.moveLog = w.moveLog
  rest : Remains F w w'

theorem Leaves.refl {F : Footprint} (w : World) : Leaves F w w :=
  ⟨.refl w, rfl, .refl w⟩

theorem Leaves.setAI {F : Footprint} {w : World} {p : PlayerRef}
    (hp : p ∈ F.players) (hai : (w.player p).ai.isSome) (ai : AI) :
    Leaves F w (w.setAI p ai) where
  table := .setAI hai ai
  moveLog := rfl
  rest := ⟨fun _ hq => Function.update_of_ne (ne_of_mem_of_not_mem hp hq).symm
    _ _, fun _ _ => rfl⟩

theorem Leaves.of_stays {F : Footprint} {s s' : State} (h : Stays F s s')
    (hrest : Remains F s.world s'.world) : Leaves F s.world s'.world :=
  ⟨h.table, h.moveLog, hrest⟩

section Step

variable {F : Footprint} {y y' : Loop} {i : TurnInput} {t : Turn} {k : ℕ}

theorem SkipsFrom.mono (h : SkipsFrom y t k) : SkipsFrom y t (k + 1) := by
  intro p hp
  apply h p
  rw [← List.drop_drop] at hp
  exact List.mem_of_mem_drop hp

theorem SkipsFrom.name (h : SkipsFrom y t k) {p : PlayerRef}
    (hp : y.game.world.players[k]? = some p) :
    (y.game.world.player p).name =
      (y.game.world.player t.curMove.caller).name := by
  refine h p (List.mem_of_getElem? (i := 0) ?_)
  rw [List.getElem?_drop]
  exact hp

/-- A change of the heap under a leftover loop. -/
theorem Leftover.world {w : World} (h : Leftover F y) (place : Place)
    (hands : Hands F w) (hplace : place.Within F)
    (hharmless :
      Harmless { y with game := { y.game with world := w }, place := place }) :
    Leftover F { y with
      game := { y.game with world := w }, place := place } where
  off := h.off
  owns := ⟨hands, h.owns.deck, h.owns.twoCards⟩
  place := hplace
  answer := h.answer
  harmless := hharmless

/-- A step that only moves the thread on, or changes what waits. -/
theorem Leftover.moves (h : Leftover F y) (hgame : y'.game = y.game)
    (hplace : y'.place.Within F) (hharmless : Harmless y') :
    Leftover F y' ∧ Leaves F y.game.world y'.game.world ∧
      SameCast y.game.vc y'.game.vc := by
  refine ⟨⟨?_, ?_, hplace, ?_, hharmless⟩, ?_, ?_⟩ <;> rw [hgame]
  · exact h.off
  · exact h.owns
  · exact h.answer
  · exact .refl _
  · exact .refl _

/-- A step that changes objects of `F`. -/
theorem Leftover.stays {s : State} {place : Place} (h : Leftover F y)
    (hs : Stays F y.game s) (hrest : Remains F y.game.world s.world)
    (hplace : place.Within F)
    (hharmless : Harmless { y with game := s, place := place }) :
    Leftover F { y with game := s, place := place } ∧
      Leaves F y.game.world s.world ∧ SameCast y.game.vc s.vc := by
  refine ⟨⟨?_, hs.owns, hplace, ?_, hharmless⟩, .of_stays hs hrest,
    .of_stays hs⟩ <;> rw [hs.vc]
  · exact h.off
  · exact h.answer

theorem LoopMove.leftover (hmove : LoopMove y i y') (h : Leftover F y)
    (hoffers : OffersOwn F y) :
    Leftover F y' ∧ Leaves F y.game.world y'.game.world ∧
      SameCast y.game.vc y'.game.vc := by
  have hplace' := h.place
  have hharmless := h.harmless
  unfold Harmless at hharmless
  cases hmove with
  | skip p hplace hon hseat hout | pick p hplace hon hseat hin =>
      cases hon.symm.trans h.off
  | claim t hplace _ | log t hplace _ =>
      rw [hplace] at hharmless
      cases hharmless
  | choose p m s hplace hchosen =>
      rw [hplace] at hharmless
      obtain ⟨hname, hwait⟩ := hharmless
      cases hchosen with
      | user _ hpressed _ _ => cases hwait.symm.trans hpressed
      | ai w hne _ _ => exact absurd hname hne
  | start hplace | quit hplace _ | wake hplace | drop t o hplace
  | prompt p hplace _ _ => exact h.moves rfl trivial trivial
  | seat t curMove hplace hlt =>
      rw [hplace] at hharmless hplace'
      exact h.moves rfl hplace' ⟨hlt, hharmless⟩
  | round t curMove hplace _ =>
      rw [hplace] at hplace'
      exact h.moves rfl hplace' trivial
  | pass t curMove p hplace hseat hskip =>
      rw [hplace] at hharmless hplace'
      exact ⟨⟨h.off, ⟨h.owns.hands, h.owns.deck, h.owns.twoCards⟩,
        hplace', (fun hon => by cases hon), hharmless.2.mono⟩, .refl _,
        ⟨rfl, rfl⟩⟩
  | ask t curMove p hplace hseat hask =>
      rw [hplace] at hharmless
      exact absurd (hharmless.2.name hseat) hask.other
  | wait t curMove p hplace hname =>
      rw [hplace] at hharmless hplace'
      exact h.moves rfl hplace' hharmless.1
  | answer t curMove o p w hplace hname hanswer =>
      rw [hplace] at hharmless hplace'
      obtain ⟨ht, -, hp⟩ := hplace'
      obtain ⟨hanswers, hallow⟩ := hharmless
      obtain ⟨hobjects, hw⟩ := getChallengeOrAllow_spec hanswer
      have ho : o.Objects F := fun hname => by
        rw [hobjects hname]
        exact ⟨hp, ht.curMove.caller⟩
      have hleaves : Leaves F y.game.world w := by
        rcases hw with rfl | ⟨hai, ai, rfl⟩
        · exact .refl _
        · exact .setAI hp hai ai
      have hseats := hleaves.table.seats
      refine ⟨h.world _ (fun p' hp' i => ?_) ⟨ht, ho, hp⟩
        ⟨hanswers.congr hseats (.refl _), fun hoff => .inr ?_⟩,
        hleaves, .refl _⟩
      · rcases hw with rfl | ⟨-, ai, rfl⟩
        · exact h.owns.hands p' hp' i
        · rw [World.setAI_slot]
          exact h.owns.hands p' hp' i
      · exact ((hallow hoff).resolve_left hname).congr hseats (.refl _)
  | notice t curMove p hplace hon =>
      rw [hplace] at hharmless hplace'
      refine h.moves rfl hplace' ⟨hharmless, fun hoff => ?_⟩
      cases hoff.symm.trans hon
  | retry t curMove p hplace _ | send t curMove p hplace =>
      rw [hplace] at hharmless hplace'
      exact h.moves rfl hplace' hharmless
  | object t curMove o p hplace hname hanswer hown =>
      rw [hplace] at hplace'
      obtain ⟨ht, hcur, -⟩ := hplace'
      exact h.moves rfl
        ⟨ht, objects_of_answer hanswer hown h.answer hcur⟩ trivial
  | allow t curMove o p hplace hname hanswer hseats =>
      rw [hplace] at hharmless hplace'
      have hrest : SkipsFrom y t (y.game.vc.challengeTurnInd + 1) := by
        cases hflag : y.game.vc.didPlayerChallengeOrAllow with
        | true =>
            refine (hharmless.1 hflag).resolve_left ?_
            rwa [← hanswer hflag]
        | false =>
            exact ((hharmless.2 hflag).resolve_left (hseats hflag).1).rest
      exact ⟨⟨h.off, ⟨h.owns.hands, h.owns.deck, h.owns.twoCards⟩,
        ⟨hplace'.1, fun ho => absurd ho hname⟩, h.answer, hrest⟩, .refl _,
        ⟨rfl, rfl⟩⟩
  | expose t o s newCard hplace hname hshow =>
      rw [hplace] at hplace'
      obtain ⟨ht, ho⟩ := hplace'
      obtain ⟨hstays, hnew⟩ := showClaim_stays h.owns hshow
      exact h.stays hstays (showClaim_remains h.owns ht.currentPlayer
        (ho hname).caller hshow) ⟨ht, hnew⟩ trivial
  | fail t o w hplace hname hreveal =>
      rw [hplace] at hplace'
      exact h.stays (.revealCard h.owns hreveal)
        (revealCard_remains h.owns (hplace'.2 hname).target hreveal) trivial
        trivial
  | act t s place hplace hact =>
      obtain ⟨ht, hnext⟩ := within_act hplace hplace'
      have hharmless' : Harmless { y with game := s, place := place } := by
        rcases hplace with ⟨-, rfl⟩ | ⟨-, rfl⟩ | ⟨theCard, newCard, -, rfl⟩
        · trivial
        · trivial
        · trivial
      have huser := hoffers t (executing_act hplace)
      exact h.stays (actOnMove_stays h.owns huser ht.curMove hact)
        (actOnMove_remains h.owns huser ht.curMove hact) hnext hharmless'
  | replace t theCard newCard s hplace hreplace =>
      rw [hplace] at hplace'
      obtain ⟨ht, hnew⟩ := hplace'
      exact h.stays (replaceClaim_stays h.owns ht.currentPlayer hnew hreplace)
        (replaceClaim_remains h.owns ht.currentPlayer hnew hreplace) trivial
        trivial
  | judge s hplace hjudge =>
      rcases isGameOver_cases hjudge with ⟨-, player0, -, rfl⟩ | ⟨-, rfl⟩
      · exact ⟨⟨rfl, ⟨h.owns.hands, h.owns.deck, h.owns.twoCards⟩,
          trivial, h.answer, trivial⟩, .refl _, ⟨rfl, rfl⟩⟩
      · exact h.moves rfl trivial trivial
  | turn hplace =>
      exact ⟨⟨h.off, ⟨h.owns.hands, h.owns.deck, h.owns.twoCards⟩,
        trivial, h.answer, trivial⟩, .refl _, ⟨rfl, rfl⟩⟩

/-- A step of a leftover loop that nobody attends to. -/
theorem Leftover.step {e : LoopEvent} (h : Leftover F y)
    (hoffers : ∀ i, e = .thread i → OffersOwn F y)
    (he : e.unattended = true) (hstep : stepLoop y e = .ok y') :
    Leftover F y' ∧ Leaves F y.game.world y'.game.world ∧
      SameCast y.game.vc y'.game.vc := by
  cases e with
  | thread i => exact (stepThread_spec hstep).leftover h (hoffers i rfl)
  | deliver =>
      obtain ⟨block, queue, -, rfl⟩ := stepLoop_deliver hstep
      have hharmless : Harmless
          { y with game := runBlock y.game block, queue := queue } := by
        refine h.harmless.congr ?_ (runBlock_sameRound ..) rfl
        cases block <;> exact (SameTable.refl _).seats
      cases block <;> exact ⟨⟨h.off, ⟨h.owns.hands, h.owns.deck,
        h.owns.twoCards⟩, h.place, h.answer, hharmless⟩, .refl _, ⟨rfl, rfl⟩⟩
  | tap | press | endGame => cases he

theorem World.slot_congr {w w' : World} {p : PlayerRef}
    (h : w'.player p = w.player p) (i : Slot) : w'.slot p i = w.slot p i := by
  cases i <;> simp only [World.slot, h]

/-- A leftover loop does not notice what happens to other objects. -/
theorem Leftover.frame {w : World} (h : Leftover F y)
    (hseats : SameSeats y.game.world w)
    (hkeep : ∀ p ∈ F.players, w.player p = y.game.world.player p) :
    Leftover F { y with game := { y.game with world := w } } := by
  refine h.world y.place (fun p hp i => ?_) h.place
    (h.harmless.congr hseats (.refl _) rfl)
  rw [World.slot_congr (hkeep p hp)]
  exact h.owns.hands p hp i

/-- It does not matter whom `setupUser` has found. -/
theorem Leftover.setUser (h : Leftover F y) (user : PlayerRef) :
    Leftover F { y with game.vc.user := user } where
  off := h.off
  owns := ⟨h.owns.hands, h.owns.deck, h.owns.twoCards⟩
  place := h.place
  answer := h.answer
  harmless := h.harmless.congr (SameTable.refl _).seats
    ⟨rfl, rfl, rfl, rfl, rfl⟩ rfl

/-- A leftover loop asks only players of its own game. -/
theorem Leftover.asked {m : Move} {p : PlayerRef} (h : Leftover F y)
    (hplace : y.place = .ask t m p) : p ∈ F.players := by
  have hin := h.place
  rw [hplace] at hin
  exact hin.2.2

/-- A leftover loop uses no index that is out of range. -/
theorem Leftover.indexes (h : Leftover F y) :
    ∀ k ∈ y.indexes, k < y.game.world.players.length := by
  have hharmless := h.harmless
  intro k hk
  unfold Harmless at hharmless
  unfold Loop.indexes at hk
  cases hplace : y.place <;> simp only [hplace] at hk hharmless
  case head =>
    rw [h.off] at hk
    cases hk
  case look =>
    rw [List.mem_singleton.mp hk]
    exact hharmless.1
  case use t curMove p =>
    split at hk
    next => cases hk
    next hoff =>
      split at hk
      next => cases hk
      next hcur =>
        have hallow := (hharmless.2
          (Bool.eq_false_of_not_eq_true hoff)).resolve_left hcur
        rcases List.mem_pair.mp hk with rfl | rfl
        · exact hallow.slot
        · exact hallow.turn
  all_goals cases hk

end Step

/-! ## The blocks of a loop that was left -/

/-- A block that runs `setupUser`. -/
def ScreenBlock.setsUser : ScreenBlock → Bool
  | .setupUser | .refresh => true
  | _ => false

/-- The block looks for a row behind the last one. -/
def Outside (s : State) : ScreenBlock → Prop
  | .showTurn => s.vc.AIs.length < s.vc.turnInd
  | .showAsked => s.vc.AIs.length < s.vc.challengeTurnInd
  | _ => False

namespace GameScreen

variable {x : GameScreen} {s : State} {index : ℕ}

theorem dismissHighlights_keeps
    (hlength : x.AICellColors.length = s.vc.AIs.length)
    (hsome : s.vc.AIs ≠ []) :
    ∃ x', x.dismissHighlights s = .ok x' ∧
      x'.AICellColors.length = s.vc.AIs.length := by
  have hpos := List.length_pos_iff.mpr hsome
  have hclear : (List.replicate x.AICellColors.length
      CellColor.clear).length = s.vc.AIs.length := by
    rw [List.length_replicate, hlength]
  rw [dismissHighlights, if_neg (by omega), reloadData_eq hclear]
  exact ⟨_, rfl, hclear⟩

theorem highlightPlayer_keeps
    (hlength : x.AICellColors.length = s.vc.AIs.length)
    (hindex : index ≤ s.vc.AIs.length) (color : CellColor) :
    ∃ x', x.highlightPlayer s index color = .ok x' ∧
      x'.AICellColors.length = s.vc.AIs.length := by
  unfold highlightPlayer
  split
  next => exact ⟨_, rfl, hlength⟩
  next hne =>
    have hset : (x.AICellColors.set (index - 1) color).length =
        s.vc.AIs.length := by
      rw [List.length_set, hlength]
    rw [highlightAI, if_pos (by omega), reloadData_eq hset]
    exact ⟨_, rfl, hset⟩

theorem highlightPlayer_outside
    (hlength : x.AICellColors.length = s.vc.AIs.length)
    (hindex : s.vc.AIs.length < index) (color : CellColor) :
    x.highlightPlayer s index color = .error .trap := by
  rw [highlightPlayer, if_neg (by omega), highlightAI, hlength,
    if_neg (by omega)]

end GameScreen

section RunBlock

open GameScreen

variable {d : Display} {s : State} {user : PlayerRef} {block : ScreenBlock}

/-- A block that finds its row changes the screen, and takes for `user` whoever
is first in `players`. -/
theorem runBlock_keeps
    (hlength : d.screen.AICellColors.length = s.vc.AIs.length)
    (hsome : s.vc.AIs ≠ []) (huser : s.world.players[0]? = some user)
    (hinside : ¬ Outside s block) :
    ∃ d', d.runBlock s block = .ok d' ∧
      d'.screen.AICellColors.length = s.vc.AIs.length ∧
      (d'.loop = d.loop ∨
        d'.loop = { d.loop with game.vc.user := user }) := by
  cases block with
  | showTurn =>
      obtain ⟨x₁, hx₁, hlength₁⟩ := dismissHighlights_keeps hlength hsome
      obtain ⟨x₂, hx₂, hlength₂⟩ := highlightPlayer_keeps hlength₁
        (Nat.le_of_not_lt hinside) .lightGray
      refine ⟨{ d with screen := x₂ }, ?_, hlength₂, .inl rfl⟩
      rw [Display.runBlock, hx₁, bind_ok, highlightPlayerInGray, hx₂]
      rfl
  | showAsked =>
      obtain ⟨x, hx, hlength'⟩ := highlightPlayer_keeps hlength
        (Nat.le_of_not_lt hinside) (purple d.lightMode)
      refine ⟨{ d with screen := x }, ?_, hlength', .inl rfl⟩
      rw [Display.runBlock, highlightPlayerInYellow, hx]
      rfl
  | dismissHighlights =>
      obtain ⟨x, hx, hlength'⟩ := dismissHighlights_keeps hlength hsome
      refine ⟨{ d with screen := x }, ?_, hlength', .inl rfl⟩
      rw [Display.runBlock, hx]
      rfl
  | tellReveal p i =>
      rw [Display.runBlock]
      split <;> exact ⟨_, rfl, hlength, .inl rfl⟩
  | turnOver i => cases i <;> exact ⟨_, rfl, hlength, .inl rfl⟩
  | setupUser =>
      rw [Display.runBlock, setupUser, huser]
      exact ⟨_, rfl, hlength, .inr rfl⟩
  | refresh =>
      have hshown : (d.screen.showUser s.world user).AICellColors.length =
          ({ s with vc.user := user } : State).vc.AIs.length := hlength
      rw [Display.runBlock, setupUser, huser]
      simp only [orFault, bind_ok, pure_bind, reloadData_eq hshown]
      exact ⟨_, rfl, hlength, .inr rfl⟩

theorem runBlock_outside
    (hlength : d.screen.AICellColors.length = s.vc.AIs.length)
    (hsome : s.vc.AIs ≠ []) (houtside : Outside s block) :
    d.runBlock s block = .error .trap := by
  cases block with
  | showTurn =>
      obtain ⟨x, hx, hlength'⟩ := dismissHighlights_keeps hlength hsome
      rw [Display.runBlock, hx, bind_ok, highlightPlayerInGray,
        highlightPlayer_outside hlength' houtside]
      rfl
  | showAsked =>
      rw [Display.runBlock, highlightPlayerInYellow,
        highlightPlayer_outside hlength houtside]
      rfl
  | _ => cases houtside

end RunBlock

end Coup
