import Coup.Threads.TwoGames

/-!
# A finished game leaves the next one alone

From a lobby that stores new players while what is left of the old turn is
harmless, the two games stay apart: the old one touches nothing of the new one,
which goes on as if it were alone.  In the middle of a challenge round the old
loop is not harmless, and a player of the new game loses a card to it.
-/

namespace Coup

open Coup.Support

/-! ## From the lobby on -/

section Run

variable {w l : World} {user user' : PlayerRef} {AIs AIs' : List PlayerRef}
  {base base' : CardRef} {shuffling dealing : List ℕ} {lightMode : Bool}
  {d₀ d : Display} {es : List DisplayEvent} {fs : List TwoEvent}
  {j : TwoGames}

theorem storePlayers_player {p : PlayerRef} (hp : p ∈ l.players) :
    (w.storePlayers l).player p = l.player p :=
  if_pos hp

theorem storePlayers_player_of_notMem {p : PlayerRef} (hp : p ∉ l.players) :
    (w.storePlayers l).player p = w.player p :=
  if_neg hp

theorem Lobby.storePlayers (h : Lobby l user AIs) :
    Lobby (w.storePlayers l) user AIs := by
  have hkeep : ∀ p ∈ user :: AIs, (w.storePlayers l).player p = l.player p :=
    fun p hp => storePlayers_player (h.players ▸ hp)
  exact {
    players := h.players
    nodup := h.nodup
    opponents := h.opponents
    atMostSix := h.atMostSix
    userName := by
      rw [hkeep user List.mem_cons_self]
      exact h.userName
    userAI := by
      rw [hkeep user List.mem_cons_self]
      exact h.userAI
    ai := fun p hp => by
      rw [hkeep p (List.mem_cons_of_mem _ hp)]
      exact h.ai p hp
    coins := fun p hp => by
      have hp' : p ∈ l.players := hp
      rw [hkeep p (h.players ▸ hp')]
      exact h.coins p hp }

/-- When the lobby has stored new players, the games are apart. -/
theorem storePlayers_apart
    (hmirrors : Mirrors (gameFootprint w.players base) d)
    (hsupplied : Supplied d.loop) (hoff : d.loop.game.vc.gameOn = false)
    (hlobby : Lobby l user AIs) (hfresh : Fresh w base l base')
    (hharmless : Harmless (d.loop.store l)) :
    Apart (gameFootprint w.players base) l.players base'
      (storePlayers d l base') where
  seats := rfl
  cards := rfl
  seated := by
    rw [hlobby.players]
    exact List.cons_ne_nil _ _
  apart := ⟨hfresh.players, hfresh.cards⟩
  old :=
    { off := hoff
      owns := by
        have howns := hmirrors.scope.game.owns
        refine ⟨howns.hands.keep fun p hp => ?_, howns.deck, howns.twoCards⟩
        exact storePlayers_player_of_notMem fun hp' =>
          hfresh.players p hp' hp
      place := hmirrors.scope.place
      answer := hmirrors.scope.game.answer
      harmless := hharmless }
  supplied := hsupplied.world id
  user := .inl hmirrors.scope.game.user
  opponents := hmirrors.range.opponents
  rows := hmirrors.painted.length
  new := by
    refine ⟨⟨user, AIs, hlobby.storePlayers⟩, fun p hp i => ?_⟩
    have hkeep : (storePlayers d l base').world.player p = l.player p :=
      storePlayers_player hp
    rw [World.slot_congr hkeep]
    exact hfresh.hands p hp i

/-- The hands of the new game hold no card of the old one. -/
theorem Apart.hands {F : Footprint} {players : List PlayerRef}
    (h : Apart F players base j) :
    ∀ p ∈ players, ∀ i, j.world.slot p i ∉ F.cards := by
  have hnew := h.new
  unfold NewGame at hnew
  intro p hp i
  cases hg : j.new with
  | none =>
      rw [hg] at hnew
      exact hnew.hands p (h.seats ▸ hp) i
  | some g =>
      rw [hg] at hnew
      exact h.apart.cards _ (hnew.game.hands p hp i)

/-- Where a harmless turn uses an index, it reads no card. -/
theorem Leftover.readsHands_eq {F : Footprint} {y : Loop} (h : Leftover F y)
    (hindexes : y.indexes ≠ []) : y.readsHands = false := by
  have hharmless := h.harmless
  unfold Harmless at hharmless
  unfold Loop.indexes at hindexes
  unfold Loop.readsHands
  cases hplace : y.place <;> simp only [hplace] at hindexes hharmless ⊢ <;>
    try exact absurd rfl hindexes
  case head => exact h.off
  case look t curMove =>
    obtain ⟨hslot, hskips⟩ := hharmless
    have hname := hskips.name (List.getElem?_eq_getElem hslot)
    rw [List.getElem?_eq_getElem hslot, Option.any_some, hname]
    exact decide_eq_false (not_not_intro rfl)

/-- A step of the old loop that uses an index goes through. -/
theorem Apart.old_succeeds {F : Footprint} {players : List PlayerRef}
    (h : Apart F players base j)
    (hindexes : (j.old.loop j.world).indexes ≠ []) (i : TurnInput) :
    ∃ j', stepTwo j (.old (.thread i)) = .ok j' := by
  obtain ⟨y, hy⟩ := (indexes_in_range hindexes).mpr h.old.indexes
  have hread : j.readsHands (.old (.thread i)) = false :=
    h.old.readsHands_eq hindexes
  have hthread : (LoopEvent.thread i).unattended = true := rfl
  rw [stepTwo, if_pos hthread, hread, Bool.and_false,
    if_neg Bool.false_ne_true]
  exact ⟨_, bind_eq_ok.mpr ⟨y, hy, rfl⟩⟩

/-- Let what is left of the old turn be harmless when the lobby stores the new
players, and let no exchange of the old user offer cards of the new game.  Then
the old game changes no coins and no cards of the new one, asks none of its
players and uses no index that is out of range; it traps exactly if it reads
cards before they are dealt or with a late block a row that its screen has not;
and the new game goes on as it does without the old one. -/
theorem games_apart (hlobby : Lobby w user AIs)
    (hopen : openDisplay w base shuffling dealing lightMode = .ok d₀)
    (hrun : run stepDisplay d₀ es = .ok d)
    (hoff : d.loop.game.vc.gameOn = false) (hlobby' : Lobby l user' AIs')
    (hfresh : Fresh w base l base') (hharmless : Harmless (d.loop.store l))
    (hrun' : run stepTwo (storePlayers d l base') fs = .ok j)
    (hoffers : EachStep stepTwo (fun j e _ => j.OffersOld e)
      (storePlayers d l base') fs) :
    (∀ e j', e.ofNew = false → j.OffersOld e → stepTwo j e = .ok j' →
      ∀ p ∈ l.players, j'.world.player p = j.world.player p ∧
        ∀ i, j'.world.held p i = j.world.held p i) ∧
    (∀ t m p, j.old.place = .ask t m p → p ∉ l.players) ∧
    (∀ k ∈ (j.old.loop j.world).indexes, k < j.world.players.length) ∧
    ((j.old.loop j.world).indexes ≠ [] →
      ∀ i, ∃ j', stepTwo j (.old (.thread i)) = .ok j') ∧
    (∀ e, e.ofNew = false → (stepTwo j e = .error .trap ↔
      j.new = none ∧ j.readsHands e = true ∨ j.Outside e)) ∧
    ∃ j₁, run stepTwo (storePlayers d l base')
        (fs.filter TwoEvent.ofNew) = .ok j₁ ∧
      j.newGame (gameFootprint l.players base') l =
        j₁.newGame (gameFootprint l.players base') l ∧
      ∀ e, e.ofNew = true →
        (stepTwo j e).map (·.newGame (gameFootprint l.players base') l) =
          (stepTwo j₁ e).map (·.newGame (gameFootprint l.players base') l) := by
  obtain ⟨hopen', es', hrun''⟩ := run_loop hlobby hopen hrun
  have hstart := storePlayers_apart (.of_run hlobby hopen hrun)
    (.of_run hlobby hopen' hrun'') hoff hlobby' hfresh hharmless
  have hj := run_invariant_of_eachStep
    (fun _ _ _ h hstep hoffers => h.step hoffers hstep) hrun' hoffers hstart
  refine ⟨fun e j' he hown hstep p hp => ?_, fun t m p hplace hp => ?_,
    hj.old.indexes, hj.old_succeeds, fun e he => hj.traps_iff he, ?_⟩
  · obtain ⟨-, -, hleaves⟩ := hj.old_event he hown hstep
    have hplayer := hleaves.rest.player p (hj.apart.players p hp)
    refine ⟨hplayer, fun i => ?_⟩
    rw [World.held, World.slot_congr hplayer]
    exact hleaves.rest.card _ (hj.hands p hp i)
  · exact hfresh.players p hp (hj.old.asked hplace)
  · obtain ⟨j₁, hrun₁, hj₁, hview⟩ :=
      run_filter (fun _ _ _ h he hstep => h.new_event he hstep)
        (fun _ _ _ h he hown hstep =>
          ⟨(h.old_event he hown hstep).1, h.newGame_old he hown hstep⟩)
        (fun _ _ _ h h' hview he => h.newGame_new h' hview he) hrun' hoffers
        hstart hstart rfl
    exact ⟨j₁, hrun₁, hview, fun e he => hj.newGame_new hj₁ hview he⟩

end Run

/-! ## A game left in a challenge round -/

/-- Two lobbies with objects of their own; the placeholders in the hands of
new players are in no deck. -/
theorem lobbyOf_fresh {username username' : String}
    {names names' : List String} {moveLog moveLog' : List Move}
    {n base base' : ℕ} (hn : names.length < n) (hbase : 0 < base)
    (hbase' : base + 15 ≤ base') :
    Fresh (lobbyOf username names moveLog) base
      ((lobbyOf username' names' moveLog').later n) base' where
  players p hp hp' := by
    obtain ⟨q, -, rfl⟩ := List.mem_map.mp hp
    have hlt : q + n < names.length + 1 := List.mem_range.mp hp'
    exact absurd (Nat.lt_of_le_of_lt (Nat.le_add_left n q) hlt)
      (Nat.not_lt_of_le hn)
  cards c hc hc' := by
    obtain ⟨k, -, rfl⟩ := List.mem_map.mp hc
    obtain ⟨k', hk', heq⟩ := List.mem_map.mp hc'
    have hlt : (k' : ℕ) < 15 := List.mem_range.mp hk'
    have hle : base + k' < base' + k :=
      calc base + k' < base + 15 := Nat.add_lt_add_left hlt base
        _ ≤ base' := hbase'
        _ ≤ base' + k := Nat.le_add_right base' k
    exact absurd heq (Nat.ne_of_lt hle)
  hands p _ i hc := by
    obtain ⟨k, -, heq⟩ := List.mem_map.mp hc
    have hzero : ((lobbyOf username' names' moveLog').later n).slot p i =
        0 := by
      cases i <;> simp only [World.slot, World.later, lobbyOf, lobbyPlayer] <;>
        split <;> rfl
    have hsum : base + k = 0 := heq.trans hzero
    exact absurd hsum (by omega)

/-- The user claims tax, and the loop enters the challenge round. -/
def claimedTax : List LoopEvent :=
  List.replicate 3 (scriptedStep .greatest 1) ++ [.deliver, .press .tax] ++
    List.replicate 5 (scriptedStep .greatest 1)

def secondLobby : World := (lobbyOf "user" ["Ed Sheeran"] []).later 2

/-- The game is left when its only AI is about to be asked. -/
def leftWhenAsked : List DisplayEvent :=
  (claimedTax ++ List.replicate 4 (scriptedStep .greatest 1)).map .loop ++
    [.loop .endGame]

/-- The old turn goes on until it is over, next to the first steps of the new
game; in between a block of the old game runs `setupUser`. -/
def turnGoesOn : List TwoEvent :=
  [.load (List.range 15) [4, 8], .old (scriptedStep .greatest 1),
    .old (scriptedStep .greatest 1), .oldBlock .refresh,
    .new (scriptedStep .greatest 1), .old (scriptedStep .greatest 1),
    .old (scriptedStep .greatest 1), .new (scriptedStep .greatest 1)]

theorem games_apart_turnGoesOn :
    ∃ d₀ d j j₁,
      openDisplay firstLobby 1 (List.range 15) [4, 8] true = .ok d₀ ∧
      run stepDisplay d₀ leftWhenAsked = .ok d ∧
      (∃ t m, d.loop.place = .ask t m 1) ∧
      run stepTwo (storePlayers d secondLobby 16) turnGoesOn = .ok j ∧
      run stepTwo (storePlayers d secondLobby 16)
        (turnGoesOn.filter TwoEvent.ofNew) = .ok j₁ ∧
      j.newGame (gameFootprint secondLobby.players 16) secondLobby =
        j₁.newGame (gameFootprint secondLobby.players 16) secondLobby := by
  have hcheck : checkFrom stepDisplay (fun _ _ _ => true)
      (fun d => decide (d.loop.game.vc.gameOn = false ∧
          d.loop.place = .ask ⟨0, ⟨.tax, 0, 0⟩⟩ .init 1 ∧
          Harmless (d.loop.store secondLobby)) &&
        checkRun stepTwo (fun j e _ => decide (j.OffersOld e))
          (fun _ => true) (storePlayers d secondLobby 16) turnGoesOn)
      (openDisplay firstLobby 1 (List.range 15) [4, 8] true)
      leftWhenAsked = true := by
    decide +kernel
  obtain ⟨d₀, d, hopen, hrun, -, hend⟩ := exists_of_checkFrom hcheck
  obtain ⟨hleft, hnext⟩ := Bool.and_eq_true_iff.mp hend
  obtain ⟨hoff, hplace, hharmless⟩ := of_decide_eq_true hleft
  obtain ⟨j, hrun', heach, -⟩ := checkRun_sound hnext
  have hoffers : EachStep stepTwo (fun j e _ => j.OffersOld e)
      (storePlayers d secondLobby 16) turnGoesOn :=
    heach.imp fun _ _ _ _ _ _ _ h => of_decide_eq_true h
  have hapart := games_apart
    (lobbyOf_one "user" "Charlie Puth") hopen hrun
    hoff ((lobbyOf_one "user" "Ed Sheeran").later 2)
    (lobbyOf_fresh (by decide) (by decide) (by decide)) hharmless hrun'
    hoffers
  obtain ⟨-, -, -, -, -, j₁, hrun₁, hview, -⟩ := hapart
  exact ⟨d₀, d, j, j₁, hopen, hrun, ⟨_, _, hplace⟩, hrun', hrun₁, hview⟩

/-- The new game has loaded, the old loop goes on with its challenge round, and
the new AI challenges. -/
def roundGoesOn : List TwoEvent :=
  .load (List.range 15) [4, 8] ::
    List.replicate 6 (.old (scriptedStep .least 1))

/-- An AI of the new game was asked by the old loop and loses a card. -/
theorem new_player_loses_card :
    ∃ user AIs user' AIs' d₀ d j j' t,
      Lobby firstLobby user AIs ∧ Lobby secondLobby user' AIs' ∧
      Fresh firstLobby 1 secondLobby 16 ∧
      openDisplay firstLobby 1 (List.range 15) [4, 8] true = .ok d₀ ∧
      run stepDisplay d₀ (claimedTax.map .loop ++ [.loop .endGame]) = .ok d ∧
      d.loop.game.vc.gameOn = false ∧
      run stepTwo (storePlayers d secondLobby 16) roundGoesOn = .ok j ∧
      stepTwo j (.old (scriptedStep .least 1)) = .ok j' ∧
      3 ∈ secondLobby.players ∧
      j.old.place = .objected t ⟨.challenge, 3, 0⟩ ∧
      (j.world.held 3 .first).revealed = false ∧
      (j'.world.held 3 .first).revealed = true := by
  have hcheck : checkFrom stepDisplay (fun _ _ _ => true)
      (fun d => decide (d.loop.game.vc.gameOn = false) &&
        lastStep stepTwo (.ok (storePlayers d secondLobby 16)) roundGoesOn
          (.old (scriptedStep .least 1)) fun j j' => decide (
            3 ∈ secondLobby.players ∧
            j.old.place =
              .objected ⟨0, ⟨.tax, 0, 0⟩⟩ ⟨.challenge, 3, 0⟩ ∧
            (j.world.held 3 .first).revealed = false ∧
            (j'.world.held 3 .first).revealed = true))
      (openDisplay firstLobby 1 (List.range 15) [4, 8] true)
      (claimedTax.map .loop ++ [.loop .endGame]) = true := by
    decide +kernel
  obtain ⟨d₀, d, hopen, hrun, -, hend⟩ := exists_of_checkFrom hcheck
  obtain ⟨hoff, hlast⟩ := Bool.and_eq_true_iff.mp hend
  obtain ⟨j₀, j, j', hstart, hrun', hstep, hP⟩ := exists_of_lastStep hlast
  cases hstart
  exact ⟨0, _, 2, _, d₀, d, j, j', _,
    lobbyOf_one "user" "Charlie Puth",
    (lobbyOf_one "user" "Ed Sheeran").later 2,
    lobbyOf_fresh (by decide) (by decide) (by decide), hopen, hrun,
    of_decide_eq_true hoff, hrun', hstep, of_decide_eq_true hP⟩

end Coup
