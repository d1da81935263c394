import Coup.Backend.AI

/-!
# The lobby

`OfflineViewController` collects the user and one to five AIs in an array and
stores it in the global `players` when the game starts.  `Lobby` is what a
game may rely on, and `lobbyOf` is the heap that the controller leaves.
-/

namespace Coup

/-- What the lobby hands over: the user in front of one to five AIs. -/
structure Lobby (w : World) (user : PlayerRef) (AIs : List PlayerRef) :
    Prop where
  players : w.players = user :: AIs
  nodup : w.players.Nodup
  opponents : AIs ≠ []
  atMostSix : w.players.length ≤ 6
  userName : (w.player user).name = w.username
  userAI : (w.player user).ai = none
  ai : ∀ p ∈ AIs, (w.player p).ai = some .init
  coins : ∀ p ∈ w.players, (w.player p).coins = 2

/-- No two players at the table share a name. -/
def DistinctNames (w : World) : Prop :=
  (w.players.map fun p => (w.player p).name).Nodup

/-- No AI has the name of the user. -/
def UserNameUnique (w : World) (AIs : List PlayerRef) : Prop :=
  ∀ p ∈ AIs, (w.player p).name ≠ w.username

/-- No two AIs share a name; the lobby hands out each name of its list to one
AI at a time. -/
def DistinctAINames (w : World) (AIs : List PlayerRef) : Prop :=
  (AIs.map fun p => (w.player p).name).Nodup

/-- The player objects of a lobby: the user, then the AIs in the order in which
they were added. -/
def lobbyPlayer (username : String) (names : List String) (p : PlayerRef) :
    Player :=
  match p with
  | 0 => ⟨username, (0, 0), 2, none⟩
  | k + 1 => ⟨names.getD k "", (0, 0), 2, some .init⟩

/-- The globals when the game starts.  All hands hold the placeholder
`Card()`, which the deal replaces; that its `name` and `revealed` are nil is
left to whoever might read it before the deal. -/
def lobbyOf (username : String) (names : List String) (moveLog : List Move) :
    World :=
  { card := fun _ => ⟨.assassin, false⟩
    player := lobbyPlayer username names
    players := List.range (names.length + 1)
    moveLog, username }

/-- `addAIButtonPressed` and `gameStartButtonPressed` let one to five AIs
through. -/
theorem lobbyOf_lobby (username : String) (names : List String)
    (moveLog : List Move) (hsome : names ≠ []) (hle : names.length ≤ 5) :
    Lobby (lobbyOf username names moveLog) 0
      ((List.range names.length).map (· + 1)) where
  players := List.range_succ_eq_map
  nodup := List.nodup_range
  opponents := by simpa using hsome
  atMostSix := by simp [lobbyOf]; omega
  userName := rfl
  userAI := rfl
  ai p hp := by
    obtain ⟨k, -, rfl⟩ := List.mem_map.mp hp
    rfl
  coins p _ := by cases p <;> rfl

/-- A lobby with one AI. -/
theorem lobbyOf_one (username name : String) :
    Lobby (lobbyOf username [name] []) 0 [1] :=
  lobbyOf_lobby username [name] [] (by simp) (by simp)

def firstLobby : World := lobbyOf "user" ["Charlie Puth"] []

/-- A lobby with two AIs. -/
theorem lobbyOf_two (username name₁ name₂ : String) :
    Lobby (lobbyOf username [name₁, name₂] []) 0 [1, 2] :=
  lobbyOf_lobby username [name₁, name₂] [] (by simp) (by simp)

theorem lobbyOf_distinctNames {username : String} {names : List String}
    (moveLog : List Move) (h : (username :: names).Nodup) :
    DistinctNames (lobbyOf username names moveLog) := by
  have hnames : ((lobbyOf username names moveLog).players.map fun p =>
      ((lobbyOf username names moveLog).player p).name) =
        username :: names := by
    apply List.ext_getElem (by simp [lobbyOf])
    intro k hk hk'
    cases k with
    | zero => simp [lobbyOf, lobbyPlayer]
    | succ k =>
        have hlt : k < names.length := by simpa using hk'
        simp [lobbyOf, lobbyPlayer, hlt]
  rw [DistinctNames, hnames]
  exact h

theorem lobbyOf_distinctAINames {username : String} {names : List String}
    (moveLog : List Move) (h : names.Nodup) :
    DistinctAINames (lobbyOf username names moveLog)
      ((List.range names.length).map (· + 1)) := by
  have hnames : (((List.range names.length).map (· + 1)).map fun p =>
      ((lobbyOf username names moveLog).player p).name) = names := by
    apply List.ext_getElem (by simp)
    intro k hk hk'
    simp [lobbyOf, lobbyPlayer, hk']
  rw [DistinctAINames, hnames]
  exact h

theorem lobbyOf_userNameUnique {username : String} {names : List String}
    (moveLog : List Move) (h : username ∉ names) :
    UserNameUnique (lobbyOf username names moveLog)
      ((List.range names.length).map (· + 1)) := by
  intro p hp hname
  obtain ⟨k, hk, rfl⟩ := List.mem_map.mp hp
  rw [List.mem_range] at hk
  apply h
  have hk' : names.getD k "" = username := hname
  rw [← hk', List.getD_eq_getElem?_getD, List.getElem?_eq_getElem hk]
  exact List.getElem_mem hk

/-- The same lobby with player objects that are made later. -/
def World.later (w : World) (n : ℕ) : World :=
  { w with
    player := fun p => w.player (p - n)
    players := w.players.map (· + n) }

theorem Lobby.later {w : World} {user : PlayerRef} {AIs : List PlayerRef}
    (h : Lobby w user AIs) (n : ℕ) :
    Lobby (w.later n) (user + n) (AIs.map (· + n)) where
  players := by simp [World.later, h.players]
  nodup := List.Pairwise.map (· + n)
    (fun _ _ hne heq => hne (Nat.add_right_cancel heq)) h.nodup
  opponents := by simpa using h.opponents
  atMostSix := by simpa [World.later] using h.atMostSix
  userName := by simpa [World.later] using h.userName
  userAI := by simpa [World.later] using h.userAI
  ai p hp := by
    obtain ⟨q, hq, rfl⟩ := List.mem_map.mp hp
    simpa [World.later] using h.ai q hq
  coins p hp := by
    obtain ⟨q, hq, rfl⟩ := List.mem_map.mp hp
    simpa [World.later] using h.coins q hq

end Coup
