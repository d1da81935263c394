import Coup.Game.Finish
import Coup.Game.Offline

/-!
# From the lobby to the verdict

Whatever is tapped in the lobby, the games that it opens are games between
players with different names, unless the user is called like one of the AIs.
Every such game can be dealt, and every state that it reaches can be played to
a verdict.
-/

namespace Coup

open Coup.Support

/-! ## Dealing -/

theorem faults_assign2Cards (w : World) (cardDeck : CardDeck)
    (seats : List PlayerRef) (draws : List ℕ) :
    Faults .trap (assign2Cards w cardDeck seats draws) := by
  induction seats generalizing w cardDeck draws with
  | nil => exact faults_ok _
  | cons p seats ih =>
      rw [assign2Cards]
      exact (faults_giveACard _ _).bind fun _ _ =>
        (faults_giveACard _ _).bind fun _ _ => ih _ _ _

/-- Whatever was drawn, the deck of a game can be placed and dealt. -/
theorem completes_openSession {w : World} {user : PlayerRef}
    {AIs : List PlayerRef} (hlobby : Lobby w user AIs) (base : CardRef)
    (dealing : List ℕ) :
    Completes fun shuffling => openSession w base shuffling dealing := by
  intro shuffling
  obtain ⟨more, cardDeck, hdeck⟩ := makeDeck_finishes base shuffling
  have honly : Faults .trap
      (openSession w base (shuffling ++ more) dealing) := by
    rw [openSession, viewDidLoad, hdeck, bind_ok]
    exact ((faults_assign2Cards _ _ _ _).bind fun _ _ =>
      (faults_orFault _).bind fun _ _ => faults_ok _).bind
        fun _ _ => faults_ok _
  exact ⟨more, (avoids_openSession hlobby).succeeds honly⟩

/-! ## Names -/

/-- The lobby knows the user's name, and so does every game that it opened,
next to AIs with names from the pool. -/
structure Hosts (name : String) (s : Offline) : Prop where
  username : s.world.username = name
  started : ∀ w ∈ s.started, w.username = name ∧ ∃ AIs,
    Lobby w s.user AIs ∧ DistinctAINames w AIs ∧
      ∀ p ∈ AIs, (w.player p).name ∈ initialNames

section Hosts

variable {name : String} {user : PlayerRef} {s s' : Offline}
  {e : OfflineEvent}

theorem Hosts.addAI (h : Hosts name s)
    (hadd : s.addAIButtonPressed = .ok s') : Hosts name s' := by
  rw [Offline.addAIButtonPressed] at hadd
  split at hadd
  · obtain ⟨s₁, hs₁, hload⟩ := bind_eq_ok.mp hadd
    cases hload
    obtain ⟨free, -, hs₁⟩ := bind_eq_ok.mp hs₁
    obtain ⟨photo, -, hs₁⟩ := bind_eq_ok.mp hs₁
    cases hs₁
    exact ⟨h.username, h.started⟩
  · cases hadd
    exact ⟨h.username, h.started⟩

theorem Hosts.delete (h : Hosts name s) {row : ℕ}
    (hdelete : s.commitDelete row = .ok s') : Hosts name s' := by
  rw [Offline.commitDelete] at hdelete
  split at hdelete
  · cases hdelete
  · split at hdelete
    · obtain ⟨p, -, hdelete⟩ := bind_eq_ok.mp hdelete
      rw [Offline.deleteRow] at hdelete
      split at hdelete
      · cases hdelete
        exact ⟨h.username, h.started⟩
      · cases hdelete
    · cases hdelete
      exact h

theorem prepare_username (s : Offline) :
    s.prepare.world.username = s.world.username := by
  rw [Offline.prepare]
  split <;> rfl

theorem prepare_player (s : Offline) (p : PlayerRef) :
    s.prepare.world.player p = s.world.player p := by
  rw [Offline.prepare]
  split <;> rfl

theorem Hosts.gameStart (h : Hosts name s) (hkept : Kept user s) :
    Hosts name s.gameStartButtonPressed := by
  obtain ⟨-, -, AIs, hc⟩ := hkept
  rw [Offline.gameStartButtonPressed]
  split
  next hstart =>
    refine ⟨(prepare_username s).trans h.username, ?_⟩
    intro w hw
    rw [List.mem_append, List.mem_singleton] at hw
    rcases hw with hw | rfl
    · exact prepare_user s ▸ h.started w hw
    · obtain ⟨hlobby, hdistinct⟩ := hc.prepare_lobby hstart
      refine ⟨(prepare_username s).trans h.username, AIs,
        prepare_user s ▸ hlobby, hdistinct, ?_⟩
      intro p hp
      rw [prepare_player]
      apply hc.names.subset
      exact List.mem_append_left _
        (List.mem_map_of_mem (f := fun p => (s.world.player p).name) hp)
  next => exact h

theorem Hosts.step (h : Hosts name s) (hkept : Kept user s)
    (hstep : stepOffline s e = .ok s') : Hosts name s' := by
  cases e with
  | addAI => exact h.addAI hstep
  | delete row => exact h.delete hstep
  | gameStart =>
      cases hstep
      exact h.gameStart hkept

end Hosts

/-- Unless the user is called like an AI of the pool, all players of a game
from the lobby have different names. -/
theorem distinctNames_of_pool {w : World} {user : PlayerRef}
    {AIs : List PlayerRef} (hlobby : Lobby w user AIs)
    (hdistinct : DistinctAINames w AIs)
    (hpool : ∀ p ∈ AIs, (w.player p).name ∈ initialNames)
    (huser : w.username ∉ initialNames) : DistinctNames w := by
  rw [DistinctNames, hlobby.players, List.map_cons, List.nodup_cons]
  refine ⟨?_, hdistinct⟩
  intro hmem
  obtain ⟨p, hp, hname⟩ := List.mem_map.mp hmem
  exact huser (hlobby.userName ▸ hname ▸ hpool p hp)

/-! ## Every game of the lobby -/

/-- Every game that a lobby opens can be dealt, whatever was drawn; and from
every state of it that is going on some continuation without the End Game
button comes to a verdict. -/
theorem lobby_plays_out {w : World} {next : PlayerRef}
    {taps : List OfflineEvent} {s : Offline}
    (huser : w.username ∉ initialNames)
    (hrun : run stepOffline (openOffline w next) taps = .ok s)
    {v : World} (hv : v ∈ s.started) (base : CardRef)
    (shuffling dealing : List ℕ) :
    (∃ more y₀, openSession v base (shuffling ++ more) dealing = .ok y₀) ∧
      ∀ y₀ y es, openSession v base shuffling dealing = .ok y₀ →
        run stepSession y₀ es = .ok y → y.game.vc.gameOn = true →
        ∃ es' y', (∀ e ∈ es', e ≠ .endGame) ∧
          run stepSession y es' = .ok y' ∧ y'.game.vc.gameOn = false ∧
          GameOver y'.game := by
  have hboth : Kept next s ∧ Hosts w.username s := by
    refine run_invariant (I := fun s => Kept next s ∧ Hosts w.username s) ?_
      hrun ⟨⟨rfl, ?_, [], .opened w next⟩, rfl, ?_⟩
    · rintro s e s' ⟨hkept, hhosts⟩ hstep
      exact ⟨hkept.step hstep, hhosts.step hkept hstep⟩
    · intro w' hw'
      exact absurd hw' List.not_mem_nil
    · intro w' hw'
      exact absurd hw' List.not_mem_nil
  obtain ⟨hname, AIs, hlobby, hdistinct, hpool⟩ := hboth.2.started v hv
  have hnames : DistinctNames v :=
    distinctNames_of_pool hlobby hdistinct hpool (hname ▸ huser)
  refine ⟨completes_openSession hlobby base dealing shuffling, ?_⟩
  intro y₀ y es hopen hplayed hon
  obtain ⟨y', ⟨es', hes, hrun'⟩, hover⟩ :=
    (Going.of_run hlobby hopen hplayed hon).finishes hnames
  exact ⟨es', y', hes, hrun', hover.off, hover.decided⟩

/-- Two AIs are added and the first is swiped away. -/
theorem lobby_plays_out_swiped :
    ∃ s v y₀ es y, run stepOffline (openOffline (lobbyOf "user" [] []) 7)
        [.addAI, .addAI, .delete 1, .gameStart] = .ok s ∧
      v ∈ s.started ∧ v.players = [7, 9] ∧
      openSession v 0 (List.range 15) [4, 8] = .ok y₀ ∧
      (∀ e ∈ es, e ≠ .endGame) ∧ run stepSession y₀ es = .ok y ∧
      GameOver y.game := by
  obtain ⟨s, v, y₀, hrun, hv, hplayers, hopen, hon⟩ : ∃ s v y₀,
      run stepOffline (openOffline (lobbyOf "user" [] []) 7)
        [.addAI, .addAI, .delete 1, .gameStart] = .ok s ∧
      v ∈ s.started ∧ v.players = [7, 9] ∧
      openSession v 0 (List.range 15) [4, 8] = .ok y₀ ∧
      y₀.game.vc.gameOn = true :=
    ⟨_, _, _, rfl, List.mem_singleton_self _, rfl, rfl, rfl⟩
  obtain ⟨es, y, hes, hplayed, -, hover⟩ :=
    (lobby_plays_out (by decide) hrun hv 0 (List.range 15) [4, 8]).2
      y₀ y₀ [] hopen rfl hon
  exact ⟨s, v, y₀, es, y, hrun, hv, hplayers, hopen, hes, hplayed, hover⟩

end Coup
