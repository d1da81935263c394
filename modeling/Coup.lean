import Coup.Support.Run
import Coup.Support.Sampling
import Coup.Support.Interleave
import Coup.Support.Draws
import Coup.Support.Progress
import Coup.Backend.Card
import Coup.Backend.Deck
import Coup.Backend.Shuffle
import Coup.Backend.Player
import Coup.Backend.AI
import Coup.Backend.Rates
import Coup.Backend.Choice
import Coup.Backend.Symmetry
import Coup.Backend.Seating
import Coup.Backend.Steal
import Coup.Backend.PublicView
import Coup.Backend.Uniform
import Coup.Game.Controller
import Coup.Rules.Board
import Coup.Rules.Turn
import Coup.Rules.Replay
import Coup.Game.Session
import Coup.Game.Table
import Coup.Game.Turn
import Coup.Game.Round
import Coup.Game.Moves
import Coup.Game.Lobby
import Coup.Game.Offline
import Coup.Game.Evidence
import Coup.Game.CardCount
import Coup.Game.Iteration
import Coup.Game.Invariant
import Coup.Game.Outcome
import Coup.Game.Influence
import Coup.Game.Effects
import Coup.Game.Coins
import Coup.Game.Verdict
import Coup.Game.Targets
import Coup.Game.Record
import Coup.Game.Ledger
import Coup.Game.Memory
import Coup.Game.FirstChallenger
import Coup.Game.Dialogs
import Coup.Game.Margin
import Coup.Game.TurnOrder
import Coup.Game.Progress
import Coup.Game.Finish
import Coup.Game.Opening
import Coup.Game.Chances
import Coup.Game.Footprint
import Coup.Game.Locality
import Coup.Threads.Handshake
import Coup.Threads.Loop
import Coup.Threads.Refinement
import Coup.Threads.Scope
import Coup.Threads.Cards
import Coup.Threads.Answers
import Coup.Threads.Commute
import Coup.Threads.Rest
import Coup.Threads.Simulation
import Coup.Threads.MoveLog
import Coup.Threads.Supply
import Coup.Threads.Display
import Coup.Threads.Mirror
import Coup.Threads.Highlights
import Coup.Threads.Leftover
import Coup.Threads.TwoGames
import Coup.Threads.GamesApart
import Coup.Threads.ActivityLog
import Coup.Threads.Traps
import Coup.Threads.Positions
import Coup.Threads.Paints
import Coup.Threads.Pictures
import Coup.App.Screens
import Coup.App.Settings
import Coup.App.InTime
