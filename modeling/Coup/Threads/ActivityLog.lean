import Coup.Support.Interleave
import Coup.Threads.GamesApart

/-!
# The activity log

`ActivityLogViewController` lists the global `moveLog`.  Every game of a
session appends its moves to it, also a game that was left while its thread
was still in a turn, and nothing ever empties it.
-/

namespace Coup

open Coup.Support

/-! ## The screen -/

/-- `tableView(_:numberOfRowsInSection:)`. -/
def numberOfRows (w : World) : ℕ := w.moveLog.length

/-- The move that `tableView(_:cellForRowAt:)` shows in a row. -/
def cellForRowAt (w : World) (row : ℕ) : Except Fault Move :=
  orFault .trap w.moveLog[row]?

/-- The rows that the table view asks for, from the first one on. -/
def listRows (w : World) : List ℕ → Except Fault (List Move)
  | [] => .ok []
  | row :: rows => do
      let move ← cellForRowAt w row
      let moves ← listRows w rows
      pure (move :: moves)

/-- Everything that the activity log shows. -/
def activityLog (w : World) : Except Fault (List Move) :=
  listRows w (List.range (numberOfRows w))

theorem listRows_map {w : World} {rows : List ℕ}
    (h : ∀ row ∈ rows, row < w.moveLog.length) :
    listRows w rows = .ok (rows.map fun row => w.moveLog.getD row .init) := by
  induction rows with
  | nil => rfl
  | cons row rows ih =>
      have hrow := h row List.mem_cons_self
      have hrest := ih fun r hr => h r (List.mem_cons_of_mem row hr)
      rw [listRows, cellForRowAt, List.getElem?_eq_getElem hrow, orFault,
        bind_ok, hrest, bind_ok, List.map_cons, List.getD_eq_getElem _ _ hrow]
      rfl

/-- The activity log shows the global, row by row. -/
theorem activityLog_eq (w : World) : activityLog w = .ok w.moveLog := by
  have hrows : ∀ row ∈ List.range (numberOfRows w), row < w.moveLog.length :=
    fun row hrow => List.mem_range.mp hrow
  rw [activityLog, listRows_map hrows]
  congr 1
  apply List.ext_getElem
  · rw [List.length_map, List.length_range]
    rfl
  · intro row _ hrow
    rw [List.getElem_map, List.getElem_range, List.getD_eq_getElem _ _ hrow]

/-! ## A session of games -/

/-- A game of the session, and the moves it has executed, in order. -/
structure Played where
  part : Part
  executed : List Move

/-- A step of one of the games on the heap that they share. -/
def Played.step (g : Played) (w : World) (e : LoopEvent) :
    Except Fault (World × Played) := do
  let y ← stepLoop (g.part.loop w) e
  pure (y.game.world, ⟨y.part, g.executed ++ (g.part.loop w).executes e⟩)

/-- The games that were left, whose threads may still be in a turn, and the
game on the screen. -/
structure Series where
  world : World
  earlier : List Played
  current : Option Played

inductive SeriesEvent
  /-- Game Start in the lobby `l`. -/
  | store (l : World)
  /-- `viewDidLoad` of the game; its cards are made from `base` on. -/
  | load (base : CardRef) (shuffling dealing : List ℕ)
  | game (e : LoopEvent)
  /-- What is left of an earlier game goes on. -/
  | earlier (k : ℕ) (e : LoopEvent)
  /-- Back to the lobby, once `isGameOver` or End Game has ended the loop. -/
  | leave

def stepSeries (y : Series) : SeriesEvent → Except Fault Series
  | .store l =>
      match y.current with
      | some _ => .error .refused
      | none => .ok { y with world := y.world.storePlayers l }
  | .load base shuffling dealing =>
      match y.current with
      | some _ => .error .refused
      | none => do
          let z ← openLoop y.world base shuffling dealing
          pure { y with world := z.game.world, current := some ⟨z.part, []⟩ }
  | .game e => do
      let g ← orFault .refused y.current
      let (w, g) ← g.step y.world e
      pure { y with world := w, current := some g }
  | .earlier k e =>
      if e.unattended then do
        let g ← orFault .refused y.earlier[k]?
        let (w, g) ← g.step y.world e
        pure { y with world := w, earlier := y.earlier.set k g }
      else .error .refused
  | .leave => do
      let g ← orFault .refused y.current
      if g.part.vc.gameOn = true then .error .refused
      else pure { y with earlier := y.earlier ++ [g], current := none }

/-- The app has just been launched: both globals have their initial values. -/
def launchSeries (w : World) : Series :=
  { world := { w with players := [], moveLog := [] }
    earlier := [], current := none }

/-! ## Whose moves the log holds -/

/-- The moves of every game of the session, from the first one on. -/
def Series.executed (y : Series) : List (List Move) :=
  (y.earlier ++ y.current.toList).map Played.executed

/-- The log is built from the moves of the games and nothing else. -/
def Logged (y : Series) : Prop := Interleaves y.executed y.world.moveLog

section Step

variable {y y' : Series} {g g' : Played} {w w' : World} {e : LoopEvent}

theorem Played.step_log (h : g.step w e = .ok (w', g')) :
    ∃ moves, w'.moveLog = w.moveLog ++ moves ∧
      g'.executed = g.executed ++ moves := by
  obtain ⟨z, hstep, h⟩ := bind_eq_ok.mp h
  cases h
  exact ⟨_, stepLoop_log hstep, rfl⟩

theorem Logged.store (h : Logged y) (l : World) :
    Logged { y with world := y.world.storePlayers l } := h

theorem Logged.load (h : Logged y) (hnone : y.current = none)
    (hlog : w.moveLog = y.world.moveLog) (part : Part) :
    Logged { y with world := w, current := some ⟨part, []⟩ } := by
  rw [Logged, Series.executed, hnone, Option.toList_none,
    List.append_nil] at h
  show Interleaves ((y.earlier ++ [(⟨part, []⟩ : Played)]).map
    Played.executed) w.moveLog
  rw [List.map_append, List.map_singleton, hlog]
  exact .join h

theorem Logged.game (h : Logged y) (hcurrent : y.current = some g)
    (hstep : g.step y.world e = .ok (w, g')) :
    Logged { y with world := w, current := some g' } := by
  obtain ⟨moves, hlog, hexecuted⟩ := Played.step_log hstep
  rw [Logged, Series.executed, hcurrent, Option.toList_some, List.map_append,
    List.map_singleton] at h
  show Interleaves ((y.earlier ++ [g']).map Played.executed) w.moveLog
  rw [List.map_append, List.map_singleton, hlog, hexecuted]
  exact h.append moves

/-- Replacing an entry of a list leaves what is before and behind it. -/
theorem exists_set_split {α : Type*} {l : List α} {k : ℕ} {a : α}
    (hk : l[k]? = some a) (b : α) :
    ∃ pre post, l = pre ++ a :: post ∧ l.set k b = pre ++ b :: post := by
  obtain ⟨hlt, rfl⟩ := List.getElem?_eq_some_iff.mp hk
  obtain ⟨pre, post, hsplit, -, hset⟩ := List.exists_of_set hlt
  exact ⟨pre, post, hsplit, hset⟩

theorem Logged.earlier (h : Logged y) {k : ℕ} (hk : y.earlier[k]? = some g)
    (hstep : g.step y.world e = .ok (w, g')) :
    Logged { y with world := w, earlier := y.earlier.set k g' } := by
  obtain ⟨moves, hlog, hexecuted⟩ := Played.step_log hstep
  obtain ⟨pre, post, hsplit, hset⟩ := exists_set_split hk g'
  rw [Logged, Series.executed, hsplit] at h
  show Interleaves ((y.earlier.set k g' ++ y.current.toList).map
    Played.executed) w.moveLog
  rw [hset, List.append_assoc, List.cons_append, List.map_append,
    List.map_cons, hlog, hexecuted]
  rw [List.append_assoc, List.cons_append, List.map_append, List.map_cons] at h
  exact h.append moves

theorem Logged.leave (h : Logged y) (hcurrent : y.current = some g) :
    Logged { y with earlier := y.earlier ++ [g], current := none } := by
  rw [Logged, Series.executed, hcurrent] at h
  show Interleaves ((y.earlier ++ [g] ++ []).map Played.executed) _
  rw [List.append_nil]
  exact h

theorem Logged.step {e : SeriesEvent} (h : Logged y)
    (hstep : stepSeries y e = .ok y') : Logged y' := by
  cases e with
  | store l =>
      rw [stepSeries] at hstep
      split at hstep
      next => cases hstep
      next =>
        cases hstep
        exact h.store l
  | load base shuffling dealing =>
      rw [stepSeries] at hstep
      split at hstep
      next => cases hstep
      next hnone =>
        obtain ⟨z, hopen, hstep⟩ := bind_eq_ok.mp hstep
        cases hstep
        exact h.load hnone (openLoop_log y.world base shuffling dealing z hopen)
          z.part
  | game e =>
      obtain ⟨g, hcurrent, hstep⟩ := bind_eq_ok.mp hstep
      obtain ⟨⟨w, g'⟩, hgame, hstep⟩ := bind_eq_ok.mp hstep
      cases hstep
      exact h.game (orFault_eq_ok.mp hcurrent) hgame
  | earlier k e =>
      rw [stepSeries] at hstep
      split at hstep
      next =>
        obtain ⟨g, hk, hstep⟩ := bind_eq_ok.mp hstep
        obtain ⟨⟨w, g'⟩, hgame, hstep⟩ := bind_eq_ok.mp hstep
        cases hstep
        exact h.earlier (orFault_eq_ok.mp hk) hgame
      next => cases hstep
  | leave =>
      obtain ⟨g, hcurrent, hstep⟩ := bind_eq_ok.mp hstep
      split at hstep
      next => cases hstep
      next =>
        cases hstep
        exact h.leave (orFault_eq_ok.mp hcurrent)

end Step

/-- In every session the activity log holds the moves of the game on the
screen, all of them and in their order.  It holds no others exactly as long as
no earlier game of the session has executed a move. -/
theorem activity_log_iff {w : World} {es : List SeriesEvent} {y : Series}
    {g : Played} (hrun : run stepSeries (launchSeries w) es = .ok y)
    (hcurrent : y.current = some g) :
    (∃ rows, activityLog y.world = .ok rows ∧ g.executed.Sublist rows) ∧
      (activityLog y.world = .ok g.executed ↔
        ∀ g' ∈ y.earlier, g'.executed = []) := by
  have hlogged : Logged y :=
    run_invariant (fun _ _ _ h hstep => h.step hstep) hrun .nil
  rw [Logged, Series.executed, hcurrent, Option.toList_some, List.map_append,
    List.map_singleton] at hlogged
  rw [activityLog_eq]
  constructor
  · refine ⟨_, rfl, hlogged.sublist g.executed ?_⟩
    exact List.mem_append_right _ (List.mem_singleton_self _)
  · rw [Except.ok.injEq, hlogged.eq_last_iff, List.forall_mem_map]

/-- The user claims tax in the first game. -/
def firstGame : List SeriesEvent :=
  [.store firstLobby, .load 1 (List.range 15) [4, 8]] ++
    claimedTax.map SeriesEvent.game

/-- In the first game of a session nothing is wrong. -/
theorem activity_log_iff_firstGame :
    ∃ y g, run stepSeries (launchSeries firstLobby) firstGame = .ok y ∧
      y.current = some g ∧ g.executed = [⟨.tax, 0, 0⟩] ∧
      activityLog y.world = .ok g.executed := by
  have hcheck : checkRun stepSeries (fun _ _ _ => true)
      (fun y => decide (y.earlier.map Played.executed = [] ∧
        y.current.map Played.executed = some [⟨.tax, 0, 0⟩]))
      (launchSeries firstLobby) firstGame = true := by
    decide +kernel
  obtain ⟨y, hrun, -, hend⟩ := checkRun_sound hcheck
  obtain ⟨hearlier, hexecuted⟩ := of_decide_eq_true hend
  obtain ⟨g, hcurrent, hg⟩ := Option.map_eq_some_iff.mp hexecuted
  refine ⟨y, g, hrun, hcurrent, hg, (activity_log_iff hrun hcurrent).2.mpr ?_⟩
  rw [List.map_eq_nil_iff.mp hearlier]
  intro g' hg'
  exact absurd hg' List.not_mem_nil

/-- The user ends the first game and starts a second one. -/
def secondGame : List SeriesEvent :=
  firstGame ++ [.game .endGame, .leave, .store secondLobby,
    .load 16 (List.range 15) [4, 8]]

/-- The second game has executed no move, and its activity log shows the tax
that was claimed in the first. -/
theorem log_of_earlier_game :
    (∃ y g, run stepSeries (launchSeries firstLobby) secondGame = .ok y ∧
      y.current = some g ∧ g.executed = [] ∧
      activityLog y.world = .ok [⟨.tax, 0, 0⟩]) ∧
    ¬ ∀ w es y g, run stepSeries (launchSeries w) es = .ok y →
      y.current = some g → activityLog y.world = .ok g.executed := by
  have hcheck : checkRun stepSeries (fun _ _ _ => true)
      (fun y => decide (y.world.moveLog = [⟨.tax, 0, 0⟩] ∧
        y.current.map Played.executed = some []))
      (launchSeries firstLobby) secondGame = true := by
    decide +kernel
  obtain ⟨y, hrun, -, hend⟩ := checkRun_sound hcheck
  obtain ⟨hlog, hexecuted⟩ := of_decide_eq_true hend
  obtain ⟨g, hcurrent, hg⟩ := Option.map_eq_some_iff.mp hexecuted
  have hrows : activityLog y.world = .ok [⟨.tax, 0, 0⟩] := by
    rw [activityLog_eq, hlog]
  refine ⟨⟨y, g, hrun, hcurrent, hg, hrows⟩, fun h => ?_⟩
  have hsame := h firstLobby secondGame y g hrun hcurrent
  rw [hrows, hg] at hsame
  cases hsame

end Coup
