import Coup.Threads.Leftover
import Coup.Threads.Mirror

/-!
# A finished game and the next one

The user leaves a game by its End Game button and starts another one from the
lobby.  The game thread of the first game is still there, and so are its
blocks; both games use the globals `players` and `moveLog`.  Until the new game
has dealt, its players hold the `Card()` of the lobby, whose `revealed` and
`name` are nil, so whoever reads them traps.
-/

namespace Coup

open Coup.Support

/-- What a game has to itself. -/
structure Part where
  vc : GameViewController
  place : Place
  pending : ℕ
  queue : List Block

/-- The loop of a game on the heap that the games share. -/
def Part.loop (g : Part) (w : World) : Loop :=
  { game := ⟨w, g.vc⟩, place := g.place, pending := g.pending
    queue := g.queue }

def Loop.part (y : Loop) : Part :=
  { vc := y.game.vc, place := y.place, pending := y.pending, queue := y.queue }

/-- The new game has a part of its own once its screen has loaded. -/
structure TwoGames where
  world : World
  old : Part
  /-- The screen of the old game. -/
  screen : GameScreen
  lightMode : Bool
  new : Option Part
  base : CardRef

inductive TwoEvent
  /-- What is left of the old game goes on. -/
  | old (e : LoopEvent)
  /-- The main queue runs a block of the old game that changes its screen. -/
  | oldBlock (block : ScreenBlock)
  /-- `viewDidLoad` of the new game. -/
  | load (shuffling dealing : List ℕ)
  | new (e : LoopEvent)

/-- Whether `adjustChallengeRate` of this AI goes through the cards of the
others. -/
def World.countsHands (w : World) (p : PlayerRef) : Bool :=
  match w.moveLog.getLast? with
  | none => false
  | some last =>
      (w.player p).ai.isSome && decide (last.name ∈ counted) &&
        ((w.held p .first).can last.name ||
          (w.held p .second).can last.name) &&
        w.players.any fun q =>
          decide ((w.player q).name ≠ (w.player p).name)

/-- Whether the next step of the thread reads a card of whoever is in
`players`. -/
def Loop.readsHands (y : Loop) : Bool :=
  match y.place with
  | .head => y.game.vc.gameOn
  -- `changeMoveRate` goes through all cards for a role that the AI lacks
  | .picked p =>
      decide ((y.game.world.player p).name ≠ y.game.world.username) &&
        (y.game.world.player p).ai.isSome
  -- `isPlayerRevealed` is the second condition of an or
  | .look t _ =>
      y.game.world.players[y.game.vc.challengeTurnInd]?.any fun p =>
        decide ((y.game.world.player p).name ≠
          (y.game.world.player t.curMove.caller).name)
  | .ask _ _ p =>
      decide ((y.game.world.player p).name ≠ y.game.world.username) &&
        y.game.world.countsHands p
  | .ending => true
  | _ => false

/-- Whether an event of the old game reads a card of whoever is in
`players`. -/
def TwoGames.readsHands (j : TwoGames) : TwoEvent → Bool
  | .old (.thread _) => (j.old.loop j.world).readsHands
  | .oldBlock block => block.setsUser
  | _ => false

/-- The old game with its screen. -/
def TwoGames.display (j : TwoGames) : Display :=
  { loop := j.old.loop j.world, screen := j.screen, blocks := []
    unshown := j.world, lightMode := j.lightMode }

/-- The steps of the two games, in any order.  The blocks of a game that change
its buttons stay in order, whereas those of different games may overtake each
other, and those that change the old screen may run at any time.  A card that
is read before it is dealt traps. -/
def stepTwo (j : TwoGames) : TwoEvent → Except Fault TwoGames
  | .old e =>
      if e.unattended then
        if j.new.isNone && j.readsHands (.old e) then .error .trap
        else do
          let y ← stepLoop (j.old.loop j.world) e
          pure { j with world := y.game.world, old := y.part }
      else .error .refused
  | .oldBlock block =>
      if j.new.isNone && j.readsHands (.oldBlock block) then .error .trap
      else do
        let d ← j.display.runBlock j.display.loop.game block
        pure { j with old := d.loop.part, screen := d.screen }
  | .load shuffling dealing =>
      match j.new with
      | some _ => .error .refused
      | none => do
          let y ← openLoop j.world j.base shuffling dealing
          pure { j with world := y.game.world, new := some y.part }
  | .new e =>
      match j.new with
      | none => .error .refused
      | some g => do
          let y ← stepLoop (g.loop j.world) e
          pure { j with world := y.game.world, new := some y.part }

/-- `players = playerArray` in the lobby `l`, which has made its players. -/
def World.storePlayers (w l : World) : World :=
  { w with
    player := fun p => if p ∈ l.players then l.player p else w.player p
    players := l.players
    username := l.username }

/-- The old loop when the lobby has stored the players of the next game. -/
def Loop.store (y : Loop) (l : World) : Loop :=
  { y with game := { y.game with world := y.game.world.storePlayers l } }

/-- The lobby starts the next game, whose cards are made from `base` on. -/
def storePlayers (d : Display) (l : World) (base : CardRef) : TwoGames :=
  { world := (d.loop.store l).game.world, old := (d.loop.store l).part
    screen := d.screen, lightMode := d.lightMode, new := none, base }

/-- The objects of the next game are new. -/
structure Fresh (w : World) (base : CardRef) (l : World) (base' : CardRef) :
    Prop where
  players : ∀ p ∈ l.players, p ∉ w.players
  cards : ∀ c ∈ createdCards base', c ∉ createdCards base
  hands : ∀ p ∈ l.players, ∀ i, l.slot p i ∉ createdCards base

/-- Whether an event is one of the new game. -/
def TwoEvent.ofNew : TwoEvent → Bool
  | .old _ | .oldBlock _ => false
  | .load .. | .new _ => true

/-- If the event executes an exchange of the user in the old game, its dialogs
offer no cards of the new game: no block has made somebody of the new game the
`user` of the old one. -/
def TwoGames.OffersOld (j : TwoGames) : TwoEvent → Prop
  | .old (.thread _) => ∀ t ∈ j.old.place.executing,
      t.curMove.AsksUser j.world → j.old.vc.user ∉ j.world.players
  | _ => True

instance (j : TwoGames) : (e : TwoEvent) → Decidable (j.OffersOld e)
  | .old (.thread _) =>
      inferInstanceAs (Decidable (∀ t ∈ j.old.place.executing,
        t.curMove.AsksUser j.world → j.old.vc.user ∉ j.world.players))
  | .old .deliver | .old (.tap _) | .old (.press _) | .old .endGame
  | .oldBlock _ | .load _ _ | .new _ => inferInstanceAs (Decidable True)

/-- The event is a block of the old game that looks for a row behind the last
one of its table view. -/
def TwoGames.Outside (j : TwoGames) : TwoEvent → Prop
  | .oldBlock block => Coup.Outside (j.old.loop j.world).game block
  | _ => False

/-- What belongs to the new game, with the globals: its own part, and the heap
with every other object taken from `v`. -/
noncomputable def TwoGames.newGame (j : TwoGames) (F : Footprint)
    (v : World) : Option Part × World :=
  (j.new, j.world.over F v)

/-! ## Two games apart -/

/-- The footprints have no object in common. -/
structure Footprint.Apart (F G : Footprint) : Prop where
  players : ∀ p ∈ G.players, p ∉ F.players
  cards : ∀ c ∈ G.cards, c ∉ F.cards

/-- The lobby has stored new players. -/
structure Stored (F : Footprint) (w : World) : Prop where
  lobby : ∃ user AIs, Lobby w user AIs
  hands : ∀ p ∈ w.players, ∀ i, w.slot p i ∉ F.cards

/-- The new game before and after its screen has loaded. -/
def NewGame (F G : Footprint) (j : TwoGames) : Prop :=
  match j.new with
  | none => Stored F j.world
  | some g => Scoped G (g.loop j.world)

/-- The old game has the objects of `F`, the new one its players and the cards
made from `base` on. -/
structure Apart (F : Footprint) (players : List PlayerRef) (base : CardRef)
    (j : TwoGames) : Prop where
  seats : j.world.players = players
  cards : j.base = base
  seated : players ≠ []
  apart : F.Apart (gameFootprint players base)
  old : Leftover F (j.old.loop j.world)
  supplied : Supplied (j.old.loop j.world)
  user : j.old.vc.user ∈ F.players ∨ j.old.vc.user ∈ players
  opponents : j.old.vc.AIs ≠ []
  rows : j.screen.AICellColors.length = j.old.vc.AIs.length
  new : NewGame F (gameFootprint players base) j

section Step

variable {F G : Footprint} {players : List PlayerRef} {base : CardRef}
  {v w w' : World} {j j' : TwoGames} {e : LoopEvent}

/-- A step within one footprint leaves the objects of the other alone. -/
theorem Footprint.Apart.keeps (h : F.Apart G) (hrest : Remains F w w') :
    (∀ p ∈ G.players, w'.player p = w.player p) ∧
      ∀ c ∈ G.cards, w'.card c = w.card c :=
  ⟨fun p hp => hrest.player p (h.players p hp),
    fun c hc => hrest.card c (h.cards c hc)⟩

theorem Footprint.Apart.symm (h : F.Apart G) : G.Apart F :=
  ⟨fun p hp hp' => h.players p hp' hp, fun c hc hc' => h.cards c hc' hc⟩

theorem Hands.keep (h : Hands G w)
    (hkeep : ∀ p ∈ G.players, w'.player p = w.player p) : Hands G w' := by
  intro p hp i
  rw [World.slot_congr (hkeep p hp)]
  exact h p hp i

/-- What the new game has does not change with the rest of the heap. -/
theorem Leaves.over_eq (h : Leaves F w w') (hapart : F.Apart G) :
    w'.over G v = w.over G v := by
  obtain ⟨hplayer, hcard⟩ := hapart.keeps h.rest
  exact over_congr hplayer hcard h.table.players h.moveLog h.table.username

theorem Stored.leaves (h : Stored F w) (hleaves : Leaves F w w')
    (hplayers : ∀ p ∈ w.players, p ∉ F.players) : Stored F w' := by
  have hkeep : ∀ p ∈ w.players, w'.player p = w.player p :=
    fun p hp => hleaves.rest.player p (hplayers p hp)
  have hseats := hleaves.table.players
  obtain ⟨⟨user, AIs, hlobby⟩, hands⟩ := h
  have huser : user ∈ w.players := by
    rw [hlobby.players]
    exact List.mem_cons_self
  refine ⟨⟨user, AIs, ?_⟩, fun p hp i => ?_⟩
  · exact {
      players := hseats.trans hlobby.players
      nodup := hseats ▸ hlobby.nodup
      opponents := hlobby.opponents
      atMostSix := hseats ▸ hlobby.atMostSix
      userName := by
        rw [hkeep user huser, hleaves.table.username]
        exact hlobby.userName
      userAI := by
        rw [hkeep user huser]
        exact hlobby.userAI
      ai := fun p hp => by
        rw [hkeep p (hlobby.players ▸ List.mem_cons_of_mem _ hp)]
        exact hlobby.ai p hp
      coins := fun p hp => by
        rw [hseats] at hp
        rw [hkeep p hp]
        exact hlobby.coins p hp }
  · rw [hseats] at hp
    rw [World.slot_congr (hkeep p hp)]
    exact hands p hp i

theorem stepTwo_old (h : stepTwo j (.old e) = .ok j') :
    e.unattended = true ∧ ∃ y, stepLoop (j.old.loop j.world) e = .ok y ∧
      j' = { j with world := y.game.world, old := y.part } := by
  rw [stepTwo] at h
  split at h
  next he =>
    split at h
    next => cases h
    next =>
      rw [bind_eq_ok] at h
      obtain ⟨y, hy, h⟩ := h
      cases h
      exact ⟨he, y, hy, rfl⟩
  next => cases h

theorem stepTwo_oldBlock {block : ScreenBlock}
    (h : stepTwo j (.oldBlock block) = .ok j') :
    ∃ d, j.display.runBlock j.display.loop.game block = .ok d ∧
      j' = { j with old := d.loop.part, screen := d.screen } := by
  rw [stepTwo] at h
  split at h
  next => cases h
  next =>
    rw [bind_eq_ok] at h
    obtain ⟨d, hd, h⟩ := h
    cases h
    exact ⟨d, hd, rfl⟩

theorem stepTwo_load {shuffling dealing : List ℕ}
    (h : stepTwo j (.load shuffling dealing) = .ok j') :
    j.new = none ∧ ∃ y, openLoop j.world j.base shuffling dealing = .ok y ∧
      j' = { j with world := y.game.world, new := some y.part } := by
  rw [stepTwo] at h
  split at h
  next => cases h
  next hnone =>
    rw [bind_eq_ok] at h
    obtain ⟨y, hy, h⟩ := h
    cases h
    exact ⟨hnone, y, hy, rfl⟩

theorem stepTwo_new (h : stepTwo j (.new e) = .ok j') :
    ∃ g y, j.new = some g ∧ stepLoop (g.loop j.world) e = .ok y ∧
      j' = { j with world := y.game.world, new := some y.part } := by
  rw [stepTwo] at h
  split at h
  next => cases h
  next g hg =>
    rw [bind_eq_ok] at h
    obtain ⟨y, hy, h⟩ := h
    cases h
    exact ⟨g, y, hg, hy, rfl⟩

/-- A step of the old game. -/
theorem Apart.old_step (h : Apart F players base j)
    (hoffers : j.OffersOld (.old e)) (hstep : stepTwo j (.old e) = .ok j') :
    Apart F players base j' ∧ j'.new = j.new ∧
      Leaves F j.world j'.world := by
  obtain ⟨he, y, hy, rfl⟩ := stepTwo_old hstep
  have hown : ∀ i, e = .thread i → OffersOwn F (j.old.loop j.world) := by
    rintro i rfl t ht hasks
    exact h.user.resolve_right (h.seats ▸ hoffers t ht hasks)
  obtain ⟨hold, hleaves, hcast⟩ := h.old.step hown he hy
  have hseats : y.game.world.players = j.world.players :=
    hleaves.table.players
  have huser : y.part.vc.user = j.old.vc.user := hcast.user
  have hAIs : y.part.vc.AIs = j.old.vc.AIs := hcast.AIs
  refine ⟨⟨hseats.trans h.seats, h.cards, h.seated, h.apart, hold,
    h.supplied.step hy, ?_, ?_, ?_, ?_⟩, rfl, hleaves⟩
  · rw [huser]
    exact h.user
  · rw [hAIs]
    exact h.opponents
  · rw [hAIs]
    exact h.rows
  · have hnew := h.new
    unfold NewGame at hnew ⊢
    cases hg : j.new with
    | none =>
        rw [hg] at hnew
        exact hnew.leaves hleaves fun p hp => h.apart.players p (h.seats ▸ hp)
    | some g =>
        rw [hg] at hnew
        refine ⟨hnew.game.world hleaves.table (hnew.game.hands.keep ?_),
          hnew.place⟩
        exact (h.apart.keeps hleaves.rest).1

/-- A block of the old game looks for a row that is not there, or changes
nothing but the screen and `user`. -/
theorem Apart.oldBlock_cases (h : Apart F players base j)
    (block : ScreenBlock) :
    (j.Outside (.oldBlock block) ∧
      j.display.runBlock j.display.loop.game block = .error .trap) ∨
    (¬ j.Outside (.oldBlock block) ∧
      ∃ d, j.display.runBlock j.display.loop.game block = .ok d ∧
        d.screen.AICellColors.length = j.old.vc.AIs.length ∧
        (d.loop.part = j.old ∨
          ∃ user ∈ players, d.loop.part = { j.old with vc.user := user })) := by
  have hpos := List.length_pos_iff.mpr h.seated
  have hget : j.display.loop.game.world.players[0]? = some players[0] := by
    show j.world.players[0]? = _
    rw [h.seats]
    exact List.getElem?_eq_getElem hpos
  have hrows : j.display.screen.AICellColors.length =
      j.display.loop.game.vc.AIs.length := h.rows
  by_cases houtside : Outside j.display.loop.game block
  · exact .inl ⟨houtside, runBlock_outside hrows h.opponents houtside⟩
  · obtain ⟨d, hd, hrows', hloop⟩ :=
      runBlock_keeps hrows h.opponents hget houtside
    refine .inr ⟨houtside, d, hd, hrows', ?_⟩
    rcases hloop with hloop | hloop <;> rw [hloop]
    · exact .inl rfl
    · exact .inr ⟨players[0], List.getElem_mem hpos, rfl⟩

/-- A block of the old game touches nothing but its screen and its `user`. -/
theorem Apart.oldBlock_step {block : ScreenBlock}
    (h : Apart F players base j)
    (hstep : stepTwo j (.oldBlock block) = .ok j') :
    Apart F players base j' ∧ j'.new = j.new ∧ j'.world = j.world := by
  obtain ⟨d, hd, rfl⟩ := stepTwo_oldBlock hstep
  refine ⟨?_, rfl, rfl⟩
  rcases h.oldBlock_cases block with ⟨-, htrap⟩ | ⟨-, d', hd', hrows, hpart⟩
  · rw [htrap] at hd
    cases hd
  · rw [hd'] at hd
    cases hd
    rcases hpart with hpart | ⟨user, huser, hpart⟩ <;> rw [hpart]
    · exact { h with rows := hrows }
    · exact { h with
        old := h.old.setUser user
        supplied := ⟨h.supplied.stock.of_deck rfl, h.supplied.log⟩
        user := .inr huser
        rows := hrows }

theorem openLoop_remains {y : Loop} {shuffling dealing : List ℕ}
    (h : openLoop w base shuffling dealing = .ok y) :
    Remains (gameFootprint w.players base) w y.game.world := by
  obtain ⟨s, hload, rfl⟩ := openLoop_eq_ok.mp h
  have hover := over_viewDidLoad (F := gameFootprint w.players base) (v := w)
    (fun _ hc => hc) (fun _ hp => hp) shuffling dealing
  rw [over_self] at hover
  exact .of_map State.world hover (fun _ => rfl) hload

/-- The step of the new game on which its screen loads. -/
theorem Apart.load_step {shuffling dealing : List ℕ}
    (h : Apart F players base j)
    (hstep : stepTwo j (.load shuffling dealing) = .ok j') :
    Apart F players base j' := by
  obtain ⟨hnone, y, hy, rfl⟩ := stepTwo_load hstep
  have hnew := h.new
  unfold NewGame at hnew
  rw [hnone] at hnew
  obtain ⟨⟨user, AIs, hlobby⟩, -⟩ := hnew
  have hscoped := openLoop_scoped hlobby hy
  have hrest := openLoop_remains hy
  have hlog := openLoop_log _ _ _ _ y hy
  rw [h.seats, h.cards] at hscoped hrest
  obtain ⟨s, hload, rfl⟩ := openLoop_eq_ok.mp hy
  have htable := (viewDidLoad_spec hlobby hload).1.table
  have hseats : SameSeats j.world s.world :=
    ⟨htable.players, htable.username, htable.name⟩
  exact ⟨hseats.players.trans h.seats, h.cards, h.seated, h.apart,
    h.old.frame hseats (h.apart.symm.keeps hrest).1,
    h.supplied.world fun hsome => hlog ▸ hsome, h.user, h.opponents, h.rows,
    hscoped⟩

/-- Any other step of the new game. -/
theorem Apart.new_step (h : Apart F players base j)
    (hstep : stepTwo j (.new e) = .ok j') : Apart F players base j' := by
  obtain ⟨g, y, hg, hy, rfl⟩ := stepTwo_new hstep
  have hnew := h.new
  unfold NewGame at hnew
  rw [hg] at hnew
  obtain ⟨hscoped, htable⟩ := hnew.step hy
  have hrest := hnew.remains hy
  have hseats : y.game.world.players = j.world.players := htable.players
  have hlog : y.game.world.moveLog = j.world.moveLog ++ _ := stepLoop_log hy
  exact ⟨hseats.trans h.seats, h.cards, h.seated, h.apart,
    h.old.frame htable.seats (h.apart.symm.keeps hrest).1,
    h.supplied.world fun hsome =>
      hlog ▸ List.append_ne_nil_of_left_ne_nil hsome _,
    h.user, h.opponents, h.rows, hscoped⟩

/-- What is left of the old game does not touch the new one. -/
theorem Apart.old_event {e : TwoEvent} (h : Apart F players base j)
    (he : e.ofNew = false) (hoffers : j.OffersOld e)
    (hstep : stepTwo j e = .ok j') :
    Apart F players base j' ∧ j'.new = j.new ∧
      Leaves F j.world j'.world := by
  cases e with
  | old e => exact h.old_step hoffers hstep
  | oldBlock block =>
      obtain ⟨hapart, hnew, hworld⟩ := h.oldBlock_step hstep
      exact ⟨hapart, hnew, hworld ▸ .refl _⟩
  | load | new => cases he

theorem Apart.new_event {e : TwoEvent} (h : Apart F players base j)
    (he : e.ofNew = true) (hstep : stepTwo j e = .ok j') :
    Apart F players base j' := by
  cases e with
  | load shuffling dealing => exact h.load_step hstep
  | new e => exact h.new_step hstep
  | old | oldBlock => cases he

theorem Apart.step {e : TwoEvent} (h : Apart F players base j)
    (hoffers : j.OffersOld e) (hstep : stepTwo j e = .ok j') :
    Apart F players base j' := by
  cases he : e.ofNew with
  | true => exact h.new_event he hstep
  | false => exact (h.old_event he hoffers hstep).1

/-! ## Where the old game can crash -/

theorem Apart.old_traps_iff (h : Apart F players base j) (e : LoopEvent) :
    stepTwo j (.old e) = .error .trap ↔
      j.new = none ∧ j.readsHands (.old e) = true := by
  cases e with
  | thread i =>
      have hthread : (LoopEvent.thread i).unattended = true := rfl
      rw [stepTwo, if_pos hthread]
      split
      next hread =>
        rw [Bool.and_eq_true, Option.isNone_iff_eq_none] at hread
        exact iff_of_true rfl hread
      next hread =>
        rw [Bool.and_eq_true, Option.isNone_iff_eq_none] at hread
        have havoids : Avoids .trap (stepThread (j.old.loop j.world) i) :=
          h.supplied.avoids_stepThread (h.seats ▸ h.seated) h.old.indexes i
        exact iff_of_false (havoids.bind fun _ _ => avoids_ok _) hread
  | deliver =>
      have hdeliver : LoopEvent.deliver.unattended = true := rfl
      have havoids : Avoids .trap (stepLoop (j.old.loop j.world) .deliver) := by
        rw [stepLoop]
        split
        · exact avoids_error (by decide)
        · exact avoids_ok _
      have hread : j.readsHands (.old .deliver) = false := rfl
      rw [stepTwo, if_pos hdeliver, hread, Bool.and_false,
        if_neg Bool.false_ne_true]
      refine iff_of_false (havoids.bind fun _ _ => avoids_ok _) ?_
      exact fun h => Bool.false_ne_true h.2
  | tap | press | endGame =>
      simp [stepTwo, LoopEvent.unattended, TwoGames.readsHands]

theorem Apart.oldBlock_traps_iff (h : Apart F players base j)
    (block : ScreenBlock) :
    stepTwo j (.oldBlock block) = .error .trap ↔
      j.new = none ∧ j.readsHands (.oldBlock block) = true ∨
        j.Outside (.oldBlock block) := by
  rw [stepTwo]
  split
  next hread =>
    rw [Bool.and_eq_true, Option.isNone_iff_eq_none] at hread
    exact iff_of_true rfl (.inl hread)
  next hread =>
    rw [Bool.and_eq_true, Option.isNone_iff_eq_none] at hread
    rw [or_iff_right hread]
    rcases h.oldBlock_cases block with ⟨houtside, htrap⟩ |
      ⟨hinside, d, hd, -⟩
    · rw [htrap]
      exact iff_of_true rfl houtside
    · rw [hd]
      exact iff_of_false (fun htrap => by cases htrap) hinside

/-- What is left of the old game traps exactly if it reads cards that are not
dealt yet or, with a block that runs late, a row that its screen has not. -/
theorem Apart.traps_iff {e : TwoEvent} (h : Apart F players base j)
    (he : e.ofNew = false) :
    stepTwo j e = .error .trap ↔
      j.new = none ∧ j.readsHands e = true ∨ j.Outside e := by
  cases e with
  | old e => exact (h.old_traps_iff e).trans (or_iff_left id).symm
  | oldBlock block => exact h.oldBlock_traps_iff block
  | load | new => cases he

/-! ## The new game alone -/

theorem Apart.newGame_old {e : TwoEvent} (h : Apart F players base j)
    (he : e.ofNew = false) (hoffers : j.OffersOld e)
    (hstep : stepTwo j e = .ok j') :
    j'.newGame (gameFootprint players base) v =
      j.newGame (gameFootprint players base) v := by
  obtain ⟨-, hnew, hleaves⟩ := h.old_event he hoffers hstep
  rw [TwoGames.newGame, TwoGames.newGame, hnew, hleaves.over_eq h.apart]

/-- What belongs to a game after a step of its loop. -/
noncomputable def Loop.newGame (y : Loop) (F : Footprint) (v : World) :
    Option Part × World :=
  (some y.part, y.game.world.over F v)

theorem newGame_over (y : Loop) : (y.over G v).newGame G v = y.newGame G v :=
  congrArg (Prod.mk (some y.part)) over_over

theorem map_newGame_over (c : Except Fault Loop) :
    (c.map (·.over G v)).map (·.newGame G v) = c.map (·.newGame G v) := by
  cases c with
  | error f => rfl
  | ok y => exact congrArg Except.ok (newGame_over y)

/-- The new game loads from its own part of the heap. -/
theorem Apart.newGame_load {shuffling dealing : List ℕ}
    (h : Apart F players base j) (hnone : j.new = none) :
    (stepTwo j (.load shuffling dealing)).map
        (·.newGame (gameFootprint players base) v) =
      (openLoop (j.world.over (gameFootprint players base) v) base shuffling
        dealing).map (·.newGame (gameFootprint players base) v) := by
  have hover : openLoop (j.world.over (gameFootprint players base) v) base
      shuffling dealing = (openLoop j.world base shuffling dealing).map
        (·.over (gameFootprint players base) v) :=
    bind_map_congr (over_viewDidLoad (fun _ hc => hc)
      (fun _ hp => h.seats ▸ hp) shuffling dealing) fun s _ => rfl
  rw [hover, map_newGame_over, stepTwo, hnone, h.cards]
  cases openLoop j.world base shuffling dealing <;> rfl

/-- The new game steps on its own part of the heap. -/
theorem Apart.newGame_step {g : Part} (h : Apart F players base j)
    (hg : j.new = some g) :
    (stepTwo j (.new e)).map (·.newGame (gameFootprint players base) v) =
      (stepLoop (g.loop (j.world.over (gameFootprint players base) v)) e).map
        (·.newGame (gameFootprint players base) v) := by
  have hnew := h.new
  unfold NewGame at hnew
  rw [hg] at hnew
  have hover := hnew.over_stepLoop (v := v) e
  have hloop : g.loop (j.world.over (gameFootprint players base) v) =
      (g.loop j.world).over (gameFootprint players base) v := rfl
  rw [hloop, hover, map_newGame_over, stepTwo, hg]
  simp only
  cases stepLoop (g.loop j.world) e <;> rfl

/-- States in which the new game looks the same take the same steps of it. -/
theorem Apart.newGame_new {t : TwoGames} {e : TwoEvent}
    (h : Apart F players base j) (ht : Apart F players base t)
    (hview : j.newGame (gameFootprint players base) v =
      t.newGame (gameFootprint players base) v) (he : e.ofNew = true) :
    (stepTwo j e).map (·.newGame (gameFootprint players base) v) =
      (stepTwo t e).map (·.newGame (gameFootprint players base) v) := by
  obtain ⟨hnew, hworld⟩ := Prod.mk.inj hview
  cases e with
  | old | oldBlock => cases he
  | load shuffling dealing =>
      cases hg : j.new with
      | none => rw [h.newGame_load hg, ht.newGame_load (hnew ▸ hg), hworld]
      | some g =>
          have hg' : t.new = some g := hnew ▸ hg
          rw [stepTwo, stepTwo, hg, hg']
  | new e =>
      cases hg : j.new with
      | none =>
          have hg' : t.new = none := hnew ▸ hg
          rw [stepTwo, stepTwo, hg, hg']
      | some g => rw [h.newGame_step hg, ht.newGame_step (hnew ▸ hg), hworld]

end Step

end Coup
