import Coup.Support.Run
import Coup.Game.Lobby
import Mathlib.Data.List.Nodup
import Mathlib.Data.List.Perm.Basic

/-!
# The lobby screen

`OfflineViewController` keeps the players of the next game in `playerArray`
and the names that are free in `aiArray`, and counts the players once more in
`playerCount`.  Adding an AI takes the first free name, swiping its row away
gives the name back, and Game Start stores the array in the global `players`.
-/

namespace Coup

open Coup.Support

/-! ## The controller -/

/-- The initial value of `aiArray`. -/
def initialNames : List String :=
  ["Charlie Puth", "Ed Sheeran", "Justin Bieber", "Selena Gomez",
    "Taylor Swift"]

/-- The photos of AIs among the resources of the app. -/
def photos : List String :=
  ["Justin Bieber.jpg", "Charlie Puth.jpg", "Ed Sheeran.jpg",
    "Taylor Swift.jpg", "Selena Gomez.jpg"]

/-- `UIImage(named:)`. -/
def imageNamed (file : String) : Option String :=
  photos.find? fun photo => photo == file

/-- `OfflineViewController` and what it works on: the heap and the globals,
the next reference for a player object, the number of rows that the table view
shows, and the worlds in which `GameViewController` has been opened. -/
structure Offline where
  aiArray : List String
  user : PlayerRef
  playerArray : List PlayerRef
  playerCount : ℤ
  world : World
  next : PlayerRef
  rows : ℕ
  started : List World

/-- The initialisers `Player(name:photo:cards:)` and `AI(name:photo:cards:)`;
the hands hold the placeholder `Card()`, which the deal replaces.  Its `name`
and `revealed` are nil, so it must not be read before; where another thread
might, `stepTwo` has a trap. -/
def World.makePlayer (w : World) (p : PlayerRef) (name : String)
    (ai : Option AI) : World :=
  w.setPlayer p fun _ => ⟨name, (0, 0), 2, ai⟩

/-- The controller with the initial values of its fields. -/
def Offline.init (w : World) (next : PlayerRef) : Offline :=
  { aiArray := initialNames
    user := next
    playerArray := []
    playerCount := 1
    world := w.makePlayer next w.username none
    next := next + 1
    rows := 0
    started := [] }

/-- `tableView.reloadData()` asks for the number of rows. -/
def Offline.reloadData (s : Offline) : Offline :=
  { s with rows := s.playerArray.length }

/-- `viewDidLoad`, after which the table view is filled. -/
def Offline.viewDidLoad (s : Offline) : Offline :=
  { s with playerArray := s.playerArray ++ [s.user] }.reloadData

/-- A fresh lobby. -/
def openOffline (w : World) (next : PlayerRef) : Offline :=
  (Offline.init w next).viewDidLoad

/-! ## Its events -/

/-- What `addAIButtonPressed` does with the first free name. -/
def Offline.append (s : Offline) (name : String) : Offline :=
  { s with
    aiArray := s.aiArray.eraseIdx 0
    playerCount := s.playerCount + 1
    world := s.world.makePlayer s.next name (some .init)
    next := s.next + 1
    playerArray := s.playerArray ++ [s.next] }

/-- The first branch of `addAIButtonPressed`. -/
def Offline.addAI (s : Offline) : Except Fault Offline := do
  let name ← orFault .trap s.aiArray[0]?
  let _ ← orFault .trap (imageNamed (name ++ ".jpg"))
  pure (s.append name)

/-- `addAIButtonPressed`; a full lobby shows an alert. -/
def Offline.addAIButtonPressed (s : Offline) : Except Fault Offline := do
  let s ← if s.playerCount < 6 then s.addAI else pure s
  pure s.reloadData

/-- What `tableView(_:commit:forRowAt:)` does with the player of the row. -/
def Offline.remove (s : Offline) (row : ℕ) (p : PlayerRef) : Offline :=
  { s with
    aiArray := s.aiArray ++ [(s.world.player p).name]
    playerArray := s.playerArray.eraseIdx row
    playerCount := s.playerCount - 1 }

/-- `tableView.deleteRows(at:with:)` for one row, which raises an exception
unless there is now exactly one row less to show. -/
def Offline.deleteRow (s : Offline) : Except Fault Offline :=
  if s.playerArray.length + 1 = s.rows then .ok { s with rows := s.rows - 1 }
  else .error .trap

/-- `tableView(_:commit:forRowAt:)` with the style `.delete`; only a row that
the table view shows can be swiped. -/
def Offline.commitDelete (s : Offline) (row : ℕ) : Except Fault Offline :=
  if s.rows ≤ row then .error .refused
  else if row ≠ 0 then do
    let p ← orFault .trap s.playerArray[row]?
    (s.remove row p).deleteRow
  else .ok s

/-- `prepare(for:sender:)`. -/
def Offline.prepare (s : Offline) : Offline :=
  if s.playerArray.length ≤ 1 then s
  else { s with world := { s.world with players := s.playerArray } }

/-- `gameStartButtonPressed`; the segue opens the game with whatever the
global `players` holds then, and a lobby without an AI shows an alert. -/
def Offline.gameStartButtonPressed (s : Offline) : Offline :=
  if s.playerCount > 1 then
    { s.prepare with started := s.started ++ [s.prepare.world] }
  else s

inductive OfflineEvent
  | addAI
  | delete (row : ℕ)
  | gameStart
  deriving DecidableEq, Repr

def stepOffline (s : Offline) : OfflineEvent → Except Fault Offline
  | .addAI => s.addAIButtonPressed
  | .delete row => s.commitDelete row
  | .gameStart => .ok s.gameStartButtonPressed

/-! ## What the lobby keeps -/

/-- The user and the AIs in the rows behind, all of them new objects, with
every name either taken or free. -/
structure Collected (s : Offline) (AIs : List PlayerRef) : Prop where
  playerArray : s.playerArray = s.user :: AIs
  nodup : (s.user :: AIs).Nodup
  made : ∀ p ∈ s.user :: AIs, p < s.next
  userName : (s.world.player s.user).name = s.world.username
  userAI : (s.world.player s.user).ai = none
  ai : ∀ p ∈ AIs, (s.world.player p).ai = some .init
  coins : ∀ p ∈ s.user :: AIs, (s.world.player p).coins = 2
  names : ((AIs.map fun p => (s.world.player p).name) ++ s.aiArray).Perm
    initialNames
  playerCount : s.playerCount = AIs.length + 1
  rows : s.rows = AIs.length + 1

theorem initialNames_nodup : initialNames.Nodup := by
  decide

/-- There is a photo for every AI. -/
theorem imageNamed_initialNames {name : String} (h : name ∈ initialNames) :
    imageNamed (name ++ ".jpg") ≠ none := by
  revert name
  decide

theorem makePlayer_player (w : World) (p q : PlayerRef) (name : String)
    (ai : Option AI) :
    (w.makePlayer p name ai).player q =
      if q = p then ⟨name, (0, 0), 2, ai⟩ else w.player q :=
  w.setPlayer_player p q _

namespace Collected

variable {s s' : Offline} {AIs : List PlayerRef}

theorem opened (w : World) (next : PlayerRef) :
    Collected (openOffline w next) [] := by
  have huser : (openOffline w next).world.player next =
      ⟨w.username, (0, 0), 2, none⟩ :=
    (makePlayer_player w next next w.username none).trans (if_pos rfl)
  constructor
  case playerArray => rfl
  case nodup => exact List.pairwise_singleton _ _
  case made =>
    intro p hp
    obtain rfl := List.mem_singleton.mp hp
    exact Nat.lt_succ_self _
  case userName => exact congrArg Player.name huser
  case userAI => exact congrArg Player.ai huser
  case ai =>
    intro p hp
    exact absurd hp List.not_mem_nil
  case coins =>
    intro p hp
    obtain rfl := List.mem_singleton.mp hp
    exact congrArg Player.coins huser
  case names => exact .refl _
  case playerCount => rfl
  case rows => rfl

/-- The names that are taken and the names that are free are five. -/
theorem length (h : Collected s AIs) : AIs.length + s.aiArray.length = 5 := by
  have hlength := h.names.length_eq
  rw [List.length_append, List.length_map] at hlength
  exact hlength

/-- While there is room for an AI, a name is free. -/
theorem exists_name (h : Collected s AIs) (hroom : s.playerCount < 6) :
    ∃ name rest, s.aiArray = name :: rest := by
  have hlength := h.length
  rw [h.playerCount] at hroom
  apply List.exists_cons_of_ne_nil
  intro hnil
  rw [hnil, List.length_nil] at hlength
  omega

/-- The first free name moves to the end of the taken ones. -/
theorem append (h : Collected s AIs) {name : String} {rest : List String}
    (hfree : s.aiArray = name :: rest) :
    Collected (s.append name).reloadData (AIs ++ [s.next]) := by
  have hold : ∀ p ∈ s.user :: AIs,
      (s.append name).world.player p = s.world.player p :=
    fun p hp => (makePlayer_player ..).trans (if_neg (h.made p hp).ne)
  have hnew : (s.append name).world.player s.next =
      ⟨name, (0, 0), 2, some .init⟩ :=
    (makePlayer_player ..).trans (if_pos rfl)
  have hseats : ∀ p ∈ s.user :: (AIs ++ [s.next]),
      p ∈ s.user :: AIs ∨ p = s.next := by
    intro p hp
    rw [← List.cons_append, List.mem_append, List.mem_singleton] at hp
    exact hp
  have hrows : (s.playerArray ++ [s.next]).length =
      (AIs ++ [s.next]).length + 1 := by
    rw [h.playerArray]
    rfl
  constructor
  case playerArray =>
    exact congrArg (· ++ [s.next]) h.playerArray
  case nodup =>
    apply List.Nodup.append h.nodup (List.pairwise_singleton _ _)
    rw [List.disjoint_singleton]
    intro hp
    exact absurd (h.made s.next hp) (Nat.lt_irrefl _)
  case made =>
    intro p hp
    rcases hseats p hp with hp | rfl
    · exact (h.made p hp).trans (Nat.lt_succ_self _)
    · exact Nat.lt_succ_self _
  case userName =>
    exact (congrArg Player.name (hold s.user List.mem_cons_self)).trans
      h.userName
  case userAI =>
    exact (congrArg Player.ai (hold s.user List.mem_cons_self)).trans h.userAI
  case ai =>
    intro p hp
    rw [List.mem_append, List.mem_singleton] at hp
    rcases hp with hp | rfl
    · exact (congrArg Player.ai (hold p (List.mem_cons_of_mem _ hp))).trans
        (h.ai p hp)
    · exact congrArg Player.ai hnew
  case coins =>
    intro p hp
    rcases hseats p hp with hp | rfl
    · exact (congrArg Player.coins (hold p hp)).trans (h.coins p hp)
    · exact congrArg Player.coins hnew
  case names =>
    have hnames : ((AIs ++ [s.next]).map fun p =>
        ((s.append name).world.player p).name) =
          (AIs.map fun p => (s.world.player p).name) ++ [name] := by
      rw [List.map_append, List.map_singleton, hnew]
      congr 1
      apply List.map_congr_left
      intro p hp
      rw [hold p (List.mem_cons_of_mem _ hp)]
    have hrest : (s.append name).aiArray = rest := by
      rw [Offline.append, hfree]
      rfl
    have hkept := h.names
    rw [hfree] at hkept
    show List.Perm (((AIs ++ [s.next]).map fun p =>
      ((s.append name).world.player p).name) ++ (s.append name).aiArray) _
    rw [hnames, hrest, List.append_assoc]
    exact hkept
  case playerCount =>
    show s.playerCount + 1 = _
    rw [h.playerCount, List.length_append, List.length_singleton]
    omega
  case rows => exact hrows

/-- The name of a removed AI is free again. -/
theorem remove (h : Collected s AIs) {k : ℕ} {p : PlayerRef}
    (hp : AIs[k]? = some p) :
    Collected { s.remove (k + 1) p with rows := s.rows - 1 }
      (AIs.eraseIdx k) := by
  obtain ⟨hk, rfl⟩ := List.getElem?_eq_some_iff.mp hp
  have hsub : (AIs.eraseIdx k).Sublist AIs := List.eraseIdx_sublist AIs k
  have hlength := List.length_eraseIdx_add_one hk
  constructor
  case playerArray =>
    exact congrArg (fun seats => seats.eraseIdx (k + 1)) h.playerArray
  case nodup => exact h.nodup.sublist (hsub.cons_cons s.user)
  case made =>
    intro q hq
    exact h.made q ((hsub.cons_cons s.user).subset hq)
  case userName => exact h.userName
  case userAI => exact h.userAI
  case ai =>
    intro q hq
    exact h.ai q (hsub.subset hq)
  case coins =>
    intro q hq
    exact h.coins q ((hsub.cons_cons s.user).subset hq)
  case names =>
    have htaken : ((s.world.player AIs[k]).name ::
        (AIs.eraseIdx k).map fun q => (s.world.player q).name).Perm
          (AIs.map fun q => (s.world.player q).name) :=
      (List.getElem_cons_eraseIdx_perm hk).map
        fun q => (s.world.player q).name
    show List.Perm (((AIs.eraseIdx k).map fun q => (s.world.player q).name) ++
      (s.aiArray ++ [(s.world.player AIs[k]).name])) _
    rw [← List.append_assoc]
    apply (List.perm_append_singleton _ _).trans
    exact (htaken.append_right s.aiArray).trans h.names
  case playerCount =>
    show s.playerCount - 1 = _
    rw [h.playerCount]
    omega
  case rows =>
    show s.rows - 1 = _
    rw [h.rows]
    omega

/-- Storing the players changes nothing in the lobby. -/
theorem prepare (h : Collected s AIs) (started : List World) :
    Collected { s.prepare with started } AIs := by
  rw [Offline.prepare]
  split
  · exact ⟨h.playerArray, h.nodup, h.made, h.userName, h.userAI, h.ai, h.coins,
      h.names, h.playerCount, h.rows⟩
  · exact ⟨h.playerArray, h.nodup, h.made, h.userName, h.userAI, h.ai, h.coins,
      h.names, h.playerCount, h.rows⟩

theorem names_nodup (h : Collected s AIs) :
    ((AIs.map fun p => (s.world.player p).name) ++ s.aiArray).Nodup :=
  h.names.nodup_iff.mpr initialNames_nodup

/-- What Game Start hands over is what a game relies on. -/
theorem prepare_lobby (h : Collected s AIs) (hstart : 1 < s.playerCount) :
    Lobby s.prepare.world s.user AIs ∧
      DistinctAINames s.prepare.world AIs := by
  have hlength := h.length
  rw [h.playerCount] at hstart
  have hmany : ¬ s.playerArray.length ≤ 1 := by
    rw [h.playerArray, List.length_cons]
    omega
  rw [Offline.prepare, if_neg hmany]
  constructor
  · constructor
    case players => exact h.playerArray
    case nodup => exact h.playerArray ▸ h.nodup
    case opponents =>
      rintro rfl
      exact absurd hstart (by decide)
    case atMostSix =>
      show s.playerArray.length ≤ 6
      rw [h.playerArray, List.length_cons]
      omega
    case userName => exact h.userName
    case userAI => exact h.userAI
    case ai => exact h.ai
    case coins => exact fun p hp => h.coins p (h.playerArray ▸ hp)
  · exact h.names_nodup.of_append_left

end Collected

/-! ## Every run -/

/-- The worlds in which a game has been opened. -/
def StartedWell (s : Offline) : Prop :=
  ∀ w ∈ s.started, ∃ AIs, Lobby w s.user AIs ∧ DistinctAINames w AIs

/-- What every step preserves. -/
def Kept (user : PlayerRef) (s : Offline) : Prop :=
  s.user = user ∧ StartedWell s ∧ ∃ AIs, Collected s AIs

section Step

variable {user : PlayerRef} {s s' : Offline} {e : OfflineEvent}

theorem Kept.addAI (h : Kept user s) :
    ∃ s', s.addAIButtonPressed = .ok s' ∧ Kept user s' := by
  obtain ⟨huser, hstarted, AIs, hc⟩ := h
  rw [Offline.addAIButtonPressed]
  split
  next hroom =>
    obtain ⟨name, rest, hfree⟩ := hc.exists_name hroom
    have hmem : name ∈ initialNames := by
      apply hc.names.subset
      rw [hfree]
      exact List.mem_append_right _ List.mem_cons_self
    obtain ⟨photo, hphoto⟩ :=
      Option.ne_none_iff_exists'.mp (imageNamed_initialNames hmem)
    refine ⟨(s.append name).reloadData, ?_, huser, hstarted, _,
      hc.append hfree⟩
    rw [Offline.addAI, hfree, List.getElem?_cons_zero, orFault, bind_ok,
      hphoto, orFault, bind_ok]
    rfl
  next =>
    have hrows : s.rows = s.playerArray.length := by
      rw [hc.rows, hc.playerArray, List.length_cons]
    have hsame : s.reloadData = s := by
      rw [Offline.reloadData, ← hrows]
    exact ⟨s, congrArg Except.ok hsame, huser, hstarted, AIs, hc⟩

/-- A row that is shown can be swiped away unless it is the user's. -/
theorem Kept.delete (h : Kept user s) {row : ℕ} (hrow : row < s.rows) :
    ∃ s', s.commitDelete row = .ok s' ∧ Kept user s' := by
  obtain ⟨huser, hstarted, AIs, hc⟩ := h
  rw [Offline.commitDelete, if_neg (by omega)]
  cases row with
  | zero => exact ⟨s, rfl, huser, hstarted, AIs, hc⟩
  | succ k =>
      rw [hc.rows] at hrow
      have hk : k < AIs.length := by omega
      have hget : AIs[k]? = some AIs[k] := List.getElem?_eq_getElem hk
      have hleft : (s.remove (k + 1) AIs[k]).playerArray.length + 1 =
          (s.remove (k + 1) AIs[k]).rows := by
        have hlength := List.length_eraseIdx_add_one hk
        show (s.playerArray.eraseIdx (k + 1)).length + 1 = s.rows
        rw [hc.playerArray, List.eraseIdx_cons_succ, List.length_cons, hc.rows,
          hlength]
      refine ⟨{ s.remove (k + 1) AIs[k] with rows := s.rows - 1 }, ?_, huser,
        hstarted, _, hc.remove hget⟩
      rw [if_pos (Nat.succ_ne_zero k), hc.playerArray, List.getElem?_cons_succ,
        hget, orFault, bind_ok, Offline.deleteRow, if_pos hleft]
      rfl

theorem prepare_user (s : Offline) : s.prepare.user = s.user := by
  rw [Offline.prepare]
  split <;> rfl

theorem Kept.gameStart (h : Kept user s) :
    Kept user s.gameStartButtonPressed := by
  obtain ⟨huser, hstarted, AIs, hc⟩ := h
  rw [Offline.gameStartButtonPressed]
  split
  next hstart =>
    refine ⟨(prepare_user s).trans huser, ?_, AIs, hc.prepare _⟩
    intro w hw
    rw [List.mem_append, List.mem_singleton] at hw
    rcases hw with hw | rfl
    · exact prepare_user s ▸ hstarted w hw
    · exact ⟨AIs, prepare_user s ▸ hc.prepare_lobby hstart⟩
  next => exact ⟨huser, hstarted, AIs, hc⟩

theorem Kept.step (h : Kept user s) (hstep : stepOffline s e = .ok s') :
    Kept user s' := by
  cases e with
  | addAI =>
      obtain ⟨s₁, hs₁, hkept⟩ := h.addAI
      rw [stepOffline, hs₁] at hstep
      cases hstep
      exact hkept
  | delete row =>
      by_cases hrow : row < s.rows
      · obtain ⟨s₁, hs₁, hkept⟩ := h.delete hrow
        rw [stepOffline, hs₁] at hstep
        cases hstep
        exact hkept
      · rw [stepOffline, Offline.commitDelete, if_pos (by omega)] at hstep
        cases hstep
  | gameStart =>
      cases hstep
      exact h.gameStart

/-- Nothing in the lobby traps: `aiArray[0]` and the photo exist, and the table
view and the array agree. -/
theorem Kept.avoids (h : Kept user s) (e : OfflineEvent) :
    Avoids .trap (stepOffline s e) := by
  cases e with
  | addAI =>
      obtain ⟨s₁, hs₁, -⟩ := h.addAI
      rw [stepOffline, hs₁]
      exact avoids_ok s₁
  | delete row =>
      by_cases hrow : row < s.rows
      · obtain ⟨s₁, hs₁, -⟩ := h.delete hrow
        rw [stepOffline, hs₁]
        exact avoids_ok s₁
      · rw [stepOffline, Offline.commitDelete, if_pos (by omega)]
        exact avoids_error (by decide)
  | gameStart => exact avoids_ok _

end Step

/-- The names of the AIs in `playerArray`. -/
def Offline.aiNames (s : Offline) : List String :=
  (s.playerArray.filter fun p => (s.world.player p).ai.isSome).map fun p =>
    (s.world.player p).name

theorem Collected.aiNames {s : Offline} {AIs : List PlayerRef}
    (h : Collected s AIs) :
    s.aiNames = AIs.map fun p => (s.world.player p).name := by
  have hall : AIs.filter (fun p => (s.world.player p).ai.isSome) = AIs := by
    apply List.filter_eq_self.mpr
    intro p hp
    rw [h.ai p hp]
    rfl
  rw [Offline.aiNames, h.playerArray, List.filter_cons_of_neg, hall]
  rw [h.userAI]
  decide

/-- The lobby that belongs to the user object `user`. -/
structure LobbyInvariant (user : PlayerRef) (s : Offline) : Prop where
  playerCount : s.playerCount = s.playerArray.length
  bounds : 1 ≤ s.playerCount ∧ s.playerCount ≤ 6
  userRow : s.playerArray[0]? = some user
  names : (s.aiNames ++ s.aiArray).Perm initialNames
  distinct : (s.aiNames ++ s.aiArray).Nodup
  available : s.playerCount < 6 → s.aiArray ≠ []
  started : ∀ w ∈ s.started,
    2 ≤ w.players.length ∧ w.players.length ≤ 6 ∧
      ∃ AIs, Lobby w user AIs ∧ DistinctAINames w AIs

theorem Kept.invariant {user : PlayerRef} {s : Offline} (h : Kept user s) :
    LobbyInvariant user s := by
  obtain ⟨rfl, hstarted, AIs, hc⟩ := h
  have hlength := hc.length
  have hcount := hc.playerCount
  constructor
  case playerCount =>
    rw [hcount, hc.playerArray, List.length_cons]
    rfl
  case bounds => constructor <;> omega
  case userRow =>
    rw [hc.playerArray]
    rfl
  case names =>
    rw [hc.aiNames]
    exact hc.names
  case distinct =>
    rw [hc.aiNames]
    exact hc.names_nodup
  case available =>
    intro hroom
    obtain ⟨name, rest, hfree⟩ := hc.exists_name hroom
    rw [hfree]
    exact List.cons_ne_nil name rest
  case started =>
    intro w hw
    obtain ⟨AIs', hlobby, hdistinct⟩ := hstarted w hw
    refine ⟨?_, hlobby.atMostSix, AIs', hlobby, hdistinct⟩
    rw [hlobby.players, List.length_cons]
    have hsome := List.length_pos_iff.mpr hlobby.opponents
    omega

/-- Whatever is tapped in a fresh lobby, nothing traps and the invariant
holds. -/
theorem lobby_invariant (w : World) (next : PlayerRef)
    (es : List OfflineEvent) :
    Avoids .trap (run stepOffline (openOffline w next) es) ∧
      ∀ s, run stepOffline (openOffline w next) es = .ok s →
        LobbyInvariant next s := by
  have hopen : Kept next (openOffline w next) := by
    refine ⟨rfl, ?_, [], .opened w next⟩
    intro w' hw'
    exact absurd hw' List.not_mem_nil
  constructor
  · exact avoids_run (fun _ _ _ h hstep => h.step hstep)
      (fun _ e h => h.avoids e) hopen es
  · intro s hrun
    exact (run_invariant (fun _ _ _ h hstep => h.step hstep) hrun
      hopen).invariant

/-- Two AIs are added, the first one is swiped away and added again at the end,
and the row of the user stays. -/
theorem lobby_invariant_swiped :
    ∃ s, run stepOffline (openOffline (lobbyOf "user" [] []) 7)
        [.addAI, .addAI, .delete 1, .delete 0, .gameStart] = .ok s ∧
      s.playerArray = [7, 9] ∧ s.started.length = 1 ∧
      s.aiArray = ["Justin Bieber", "Selena Gomez", "Taylor Swift",
        "Charlie Puth"] ∧ LobbyInvariant 7 s := by
  refine ⟨_, rfl, rfl, rfl, rfl, ?_⟩
  exact (lobby_invariant (lobbyOf "user" [] []) 7
    [.addAI, .addAI, .delete 1, .delete 0, .gameStart]).2 _ rfl

end Coup
