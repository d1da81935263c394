import Coup.Game.Record
import Coup.Threads.Mirror
import Coup.Threads.Paints
import Coup.Threads.Positions
import Coup.Threads.Rest

/-!
# The pictures of the user's cards

A picture is turned over by a block that `revealCard` sends, and never turned
back.  So in every order of the events a card of the user that is face up shows
its photo, or the block waits; but a card that replaces one that was face up
before the challenge lies hidden under the old photo.
-/

namespace Coup

open Coup.Support

/-! ## Every order of events -/

/-- The pictures of the user's cards: a card that is face up shows its photo,
or a block waits for it, or it is shown for a challenge. -/
structure Pictured (F : Footprint) (created : List CardRef) (w₀ : World)
    (user : PlayerRef) (d : Display) : Prop where
  mirrors : Mirrors F d
  holding : Holding created d.loop
  table : SameTable w₀ d.loop.game.world
  isUser : d.loop.game.vc.user = user
  shown : ∀ j, d.loop.place.Shows user j →
    (d.loop.game.world.held user j).revealed = true
  unshown : d.loop.place.showing = true → SameTable w₀ d.unshown ∧
    ∀ j, d.unshown.slot user j = d.loop.game.world.slot user j
  views : ∀ j, d.screen.cardImageView j = d.screen.currentUserCard j
  photo : ∀ j, ¬ Turning d.blocks user j → ¬ d.loop.place.Shows user j →
    (d.loop.game.world.held user j).revealed = true →
    d.screen.currentUserCard j =
      .photo (d.loop.game.world.held user j).role

section Pictured

variable {F : Footprint} {created : List CardRef} {w₀ : World}
  {user : PlayerRef} {d d' : Display} {e : DisplayEvent} {y y' : Loop}
  {i : TurnInput} {early : Bool}

/-- In the sleep before a claimed card is shown the same cards are held. -/
theorem unshown_sameTable (y : Loop) :
    SameTable y.game.world y.unshown ∧
      ∀ p j, y.unshown.slot p j = y.game.world.slot p j := by
  rw [Loop.unshown]
  split
  next o hplace =>
    cases hreveal : y.game.world.revealCard o.caller with
    | error f => exact ⟨.refl _, fun _ _ => rfl⟩
    | ok w =>
        refine ⟨.revealCard hreveal, ?_⟩
        obtain rfl | ⟨k, -, rfl⟩ := World.revealCard_eq hreveal <;>
          exact fun _ _ => rfl
  next => exact ⟨.refl _, fun _ _ => rfl⟩

theorem LoopMove.showing_slot (hmove : LoopMove y i y')
    (hshowing : y'.place.showing = true) (p : PlayerRef) (j : Slot) :
    y'.game.world.slot p j = y.game.world.slot p j := by
  cases hmove with
  | expose t o s newCard hplace hname hshow =>
      obtain ⟨w, hreveal, hshow⟩ := bind_eq_ok.mp hshow
      obtain ⟨⟨newCard', deck⟩, -, hshow⟩ := bind_eq_ok.mp hshow
      cases hshow
      have hslot : w.slot p j = y.game.world.slot p j := by
        obtain rfl | ⟨k, -, rfl⟩ := World.revealCard_eq hreveal <;> rfl
      rw [← hslot]
      simp only [showCard]
      split <;> rfl
  | skip _ hplace =>
      rw [hplace] at hshowing
      cases hshowing
  | act _ _ _ hplace =>
      rcases hplace with ⟨-, rfl⟩ | ⟨-, rfl⟩ | ⟨_, _, -, rfl⟩ <;>
        cases hshowing
  | _ => cases hshowing

/-- What the main thread reads, also early, are the same cards and names. -/
theorem Pictured.seen (h : Pictured F created w₀ user d) (early : Bool) :
    SameTable w₀ (d.seen early).world ∧
      ∀ j, (d.seen early).world.slot user j =
        d.loop.game.world.slot user j := by
  rw [Display.seen]
  split
  next hshowing =>
    rw [Bool.and_eq_true] at hshowing
    exact h.unshown hshowing.2
  next => exact ⟨h.table, fun _ => rfl⟩

theorem Pictured.seen_role (h : Pictured F created w₀ user d) (early : Bool)
    (j : Slot) : ((d.seen early).world.held user j).role =
      (d.loop.game.world.held user j).role := by
  obtain ⟨htable, hslot⟩ := h.seen early
  rw [World.held, World.held, htable.role, hslot, h.table.role]

theorem Pictured.seated (h : Pictured F created w₀ user d) :
    user ∈ d.loop.game.world.players := by
  rw [h.mirrors.range.players, h.isUser]
  exact List.mem_cons_self

/-- What an event of the loop leaves of the rest. -/
theorem Pictured.base {e : LoopEvent} (h : Pictured F created w₀ user d)
    (hstep : stepDisplay d (.loop e) = .ok d') :
    Mirrors F d' ∧ Holding created d'.loop ∧
      SameTable d.loop.game.world d'.loop.game.world ∧
      d'.loop.game.vc.user = user ∧ d'.screen = d.screen := by
  have hmirrors := h.mirrors.step hstep
  obtain ⟨y, hy, hstep⟩ := bind_eq_ok.mp hstep
  cases hstep
  have hscope := h.mirrors.scope
  have htable := (hscope.step hy).2
  refine ⟨hmirrors, h.holding.step hscope hy, htable, ?_, rfl⟩
  have hplayers := hmirrors.range.players
  rw [htable.players, h.mirrors.range.players] at hplayers
  exact (List.cons.inj hplayers).1.symm.trans h.isUser

theorem stepDisplay_thread
    (hstep : stepDisplay d (.loop (.thread i)) = .ok d') :
    stepThread d.loop i = .ok d'.loop ∧ d'.screen = d.screen ∧
      d'.blocks = d.blocks ++ d.loop.sends d'.loop.place ∧
      d'.unshown = d.loop.unshown := by
  obtain ⟨y, hy, hstep⟩ := bind_eq_ok.mp hstep
  cases hstep
  exact ⟨hy, rfl, rfl, rfl⟩

/-- The handlers of the main thread leave all that the pictures show. -/
theorem stepDisplay_main {e : LoopEvent}
    (hstep : stepDisplay d (.loop e) = .ok d') (hmain : ∀ i, e ≠ .thread i) :
    d'.loop.place = d.loop.place ∧
      d'.loop.game.world = d.loop.game.world ∧ d'.screen = d.screen ∧
      d'.blocks = d.blocks ∧ d'.unshown = d.unshown := by
  obtain ⟨y, hy, hstep⟩ := bind_eq_ok.mp hstep
  cases hstep
  obtain ⟨hplace, hworld, -⟩ := stepLoop_main hy hmain
  cases e with
  | thread i => exact absurd rfl (hmain i)
  | _ => exact ⟨hplace, hworld, rfl, List.append_nil _, rfl⟩

theorem Pictured.thread (h : Pictured F created w₀ user d)
    (hstep : stepDisplay d (.loop (.thread i)) = .ok d') :
    Pictured F created w₀ user d' := by
  obtain ⟨hmirrors, hholding, htable, huser, -⟩ := h.base hstep
  obtain ⟨hy, hscreen, hblocks, hunshown⟩ := stepDisplay_thread hstep
  have hslot (j : Slot) : SlotMove d.loop d'.loop user j :=
    stepThread_slotMove hy h.mirrors.scope h.holding h.seated
  refine ⟨hmirrors, hholding, h.table.trans htable, huser, fun j hshows => ?_,
    fun hshowing => ?_, hscreen ▸ h.views, fun j hturning hshows hup => ?_⟩
  · cases hslot j with
    | turns hturns hiff =>
        have hup := h.shown j (hiff.mp hshows)
        cases hturns with
        | keep hface _ _ => exact hface.trans hup
        | lose _ hup' _ => exact hup'
    | «show» _ _ hup _ => exact hup
    | replace _ hgone _ _ => exact absurd hshows hgone
  · obtain ⟨hsame, hkept⟩ := unshown_sameTable d.loop
    rw [hunshown]
    refine ⟨h.table.trans hsame, fun j => (hkept user j).trans ?_⟩
    exact ((stepThread_spec hy).showing_slot hshowing user j).symm
  · rw [hscreen]
    rw [hblocks] at hturning
    cases hslot j with
    | turns hturns hiff =>
        cases hturns with
        | keep hface hcard _ =>
            have hup' := hface.symm.trans hup
            have hphoto := h.photo j (fun ht => hturning (ht.append _))
              (fun hs => hshows (hiff.mpr hs)) hup'
            rw [hphoto, World.held, World.held, htable.role, hcard hup']
        | lose _ _ htell =>
            exact absurd (.inl (List.mem_append_right _ htell)) hturning
    | «show» _ hshows' _ _ => exact absurd hshows' hshows
    | replace _ _ hdown _ =>
        rw [hdown] at hup
        cases hup

theorem Pictured.main {e : LoopEvent} (h : Pictured F created w₀ user d)
    (hstep : stepDisplay d (.loop e) = .ok d') (hmain : ∀ i, e ≠ .thread i) :
    Pictured F created w₀ user d' := by
  obtain ⟨hmirrors, hholding, htable, huser, -⟩ := h.base hstep
  obtain ⟨hplace, hworld, hscreen, hblocks, hunshown⟩ :=
    stepDisplay_main hstep hmain
  refine ⟨hmirrors, hholding, h.table.trans htable, huser, ?_, ?_, ?_, ?_⟩
  · rw [hplace, hworld]
    exact h.shown
  · rw [hplace, hworld, hunshown]
    exact h.unshown
  · rw [hscreen]
    exact h.views
  · rw [hblocks, hplace, hworld, hscreen]
    exact h.photo

/-- A row that scrolls into view leaves the pictures alone. -/
theorem stepDisplay_willDisplay {row : ℕ}
    (hstep : stepDisplay d (.willDisplay early row) = .ok d') :
    ∃ x', d' = { d with screen := x' } ∧
      ∀ j, x'.currentUserCard j = d.screen.currentUserCard j ∧
        x'.cardImageView j = d.screen.cardImageView j := by
  rw [stepDisplay] at hstep
  split at hstep
  next =>
    obtain ⟨cell, -, hstep⟩ := bind_eq_ok.mp hstep
    cases hstep
    refine ⟨_, rfl, fun j => ?_⟩
    cases j <;> exact ⟨rfl, rfl⟩
  next => cases hstep

/-- A block that the main queue has run, and what it did to the pictures. -/
theorem Mirrors.runBlock_paints (h : Mirrors F d)
    (hstep : stepDisplay d (.runBlock early) = .ok d') :
    ∃ block blocks, d.blocks = block :: blocks ∧ d'.loop = d.loop ∧
      d'.unshown = d.unshown ∧
      Paints { d with blocks } d' (d.seen early) block := by
  obtain ⟨block, blocks, x', more, hblocks, rfl, -⟩ := h.runBlock_cases hstep
  refine ⟨block, blocks, hblocks, rfl, rfl, ?_⟩
  rw [stepDisplay, hblocks] at hstep
  exact runBlock_paints hstep

theorem Pictured.runBlock (h : Pictured F created w₀ user d)
    (hname : (w₀.player user).name = w₀.username)
    (hstep : stepDisplay d (.runBlock early) = .ok d') :
    Pictured F created w₀ user d' := by
  have hmirrors := h.mirrors.step hstep
  obtain ⟨htable, -⟩ := h.seen early
  have hseen : ((d.seen early).world.player user).name =
      (d.seen early).world.username := by
    rw [htable.name, htable.username, hname]
  obtain ⟨block, blocks, hblocks, hloop, hunshown, hpaints⟩ :=
    h.mirrors.runBlock_paints hstep
  refine ⟨hmirrors, hloop ▸ h.holding, hloop ▸ h.table, hloop ▸ h.isUser,
    hloop ▸ h.shown, ?_, hpaints.views h.views, ?_⟩
  · rw [hloop, hunshown]
    exact h.unshown
  · rw [hloop]
    intro j hturning hshows hup
    rcases hpaints.picture j with ⟨hkept, hover⟩ | ⟨-, hphoto⟩
    · rw [hkept]
      refine h.photo j (fun ht => ?_) hshows hup
      rw [hblocks] at ht
      exact (hpaints.turning hseen ht).elim hturning hover
    · rw [hphoto]
      have huser : (d.seen early).vc.user = user :=
        (congrArg GameViewController.user (h.mirrors.seen early).2.2.1).trans
          h.isUser
      rw [huser, h.seen_role]

theorem Pictured.step (h : Pictured F created w₀ user d)
    (hname : (w₀.player user).name = w₀.username)
    (hstep : stepDisplay d e = .ok d') : Pictured F created w₀ user d' := by
  have hmirrors := h.mirrors.step hstep
  cases e with
  | loop e =>
      obtain ⟨i, rfl⟩ | hmain := e.thread_or_main
      · exact h.thread hstep
      · exact h.main hstep hmain
  | runBlock early => exact h.runBlock hname hstep
  | willDisplay early row =>
      obtain ⟨x', rfl, hpictures⟩ := stepDisplay_willDisplay hstep
      refine { h with mirrors := hmirrors, views := ?_, photo := ?_ }
      · intro j
        exact (hpictures j).2.trans ((h.views j).trans (hpictures j).1.symm)
      · intro j hturning hshows hup
        exact (hpictures j).1.trans (h.photo j hturning hshows hup)

end Pictured

/-! ## Hidden cards -/

/-- A card of the user that is shown for a challenge was face down. -/
def FreshClaim (d : Display) : Prop :=
  d.loop.place.showing = true →
    ∀ j, d.loop.place.Shows d.loop.game.vc.user j →
      (d.unshown.held d.loop.game.vc.user j).revealed = false

theorem freshClaim_iff {d : Display} :
    FreshClaim d ↔ (d.loop.place.showing = true →
      ∀ j ∈ [Slot.first, Slot.second],
        d.loop.place.Shows d.loop.game.vc.user j →
          (d.unshown.held d.loop.game.vc.user j).revealed = false) := by
  refine ⟨fun h hshowing j _ => h hshowing j, fun h hshowing j => ?_⟩
  exact h hshowing j (by cases j <;> simp)

instance (d : Display) : Decidable (FreshClaim d) :=
  decidable_of_iff _ freshClaim_iff.symm

/-- A picture shows a photo, or is going to, only for a card that is face up
to stay. -/
structure Backed (user : PlayerRef) (d : Display) : Prop where
  told : ∀ p j, .tellReveal p j ∈ d.blocks → p ∈ d.loop.game.world.players
  up : ∀ j, Turning d.blocks user j ∨ d.screen.currentUserCard j ≠ .back →
    (d.loop.game.world.held user j).revealed = true ∧
      ¬ d.loop.place.Shows user j

section Backed

variable {F : Footprint} {created : List CardRef} {w₀ : World}
  {user p q : PlayerRef} {d d' : Display} {e : DisplayEvent} {y : Loop}
  {i : TurnInput} {j : Slot} {early : Bool}

theorem tellReveal_mem_reveal {w : World}
    (h : .tellReveal p j ∈ revealBlocks w q) : p = q := by
  unfold revealBlocks at h
  simp only [List.mem_append, List.mem_map, List.mem_singleton, reduceCtorEq,
    or_false, ScreenBlock.tellReveal.injEq] at h
  obtain ⟨k, -, hq, -⟩ := h
  exact hq.symm

theorem tellReveal_mem_act {w : World} {m : Move}
    (h : .tellReveal p j ∈ actBlocks w m ++ [.refresh]) : p = m.target := by
  rw [List.mem_append, List.mem_singleton] at h
  rcases h with h | h
  · unfold actBlocks at h
    split at h
    case h_1 | h_2 => exact tellReveal_mem_reveal h
    case h_3 => split at h <;> simp at h
    case h_4 => cases h
  · cases h

/-- The thread reveals cards of players at the table. -/
theorem Scoped.told (h : Scoped F y) {place' : Place}
    (htell : .tellReveal p j ∈ y.sends place') :
    p ∈ y.game.world.players := by
  have hwithin := h.place
  rw [h.game.seats]
  unfold Loop.sends at htell
  split at htell
  case h_4 t o hplace =>
    rw [hplace] at hwithin
    obtain ⟨ht, hobjects⟩ := hwithin
    split at htell
    next hname =>
      split at htell
      next => exact tellReveal_mem_reveal htell ▸ (hobjects hname).1
      next => exact tellReveal_mem_reveal htell ▸ (hobjects hname).2
    next =>
      split at htell
      next => exact tellReveal_mem_act htell ▸ ht.curMove.target
      next => cases htell
  case h_5 t hplace =>
    rw [hplace] at hwithin
    exact tellReveal_mem_act htell ▸ hwithin.curMove.target
  case h_6 t _ _ hplace =>
    rw [hplace] at hwithin
    exact tellReveal_mem_act htell ▸ hwithin.1.curMove.target
  case h_1 | h_2 | h_3 => split at htell <;> simp at htell
  case h_7 => simp at htell
  case h_8 => cases htell

/-- Only the main thread sends the block that turns over a picture. -/
theorem turnOver_notMem_sends (y : Loop) (place' : Place) (j : Slot) :
    .turnOver j ∉ y.sends place' := by
  have hreveal (w : World) (q : PlayerRef) :
      .turnOver j ∉ revealBlocks w q := by
    simp [revealBlocks]
  have hact (w : World) (m : Move) :
      .turnOver j ∉ actBlocks w m ++ [.refresh] := by
    rw [List.mem_append, not_or]
    refine ⟨?_, by simp⟩
    unfold actBlocks
    split
    case h_1 | h_2 => exact hreveal _ _
    case h_3 => split <;> simp
    case h_4 => exact List.not_mem_nil
  unfold Loop.sends
  split
  case h_1 | h_2 | h_3 => split <;> simp
  case h_4 =>
    split
    next => split <;> exact hreveal _ _
    next =>
      split
      next => exact hact _ _
      next => exact List.not_mem_nil
  case h_5 | h_6 => exact hact _ _
  case h_7 => simp
  case h_8 => exact List.not_mem_nil

/-- The thread keeps to it, if the claim that it shows was face down. -/
theorem Backed.thread (h : Backed user d)
    (hpictured : Pictured F created w₀ user d)
    (hstep : stepDisplay d (.loop (.thread i)) = .ok d')
    (hfresh : FreshClaim d') : Backed user d' := by
  obtain ⟨-, -, htable, huser, -⟩ := hpictured.base hstep
  obtain ⟨hy, hscreen, hblocks, hunshown⟩ := stepDisplay_thread hstep
  have hscope := hpictured.mirrors.scope
  refine ⟨fun p j htell => ?_, fun j hback => ?_⟩
  · rw [htable.players]
    rw [hblocks, List.mem_append] at htell
    exact htell.elim (h.told p j) hscope.told
  have hslot : SlotMove d.loop d'.loop user j :=
    stepThread_slotMove hy hscope hpictured.holding hpictured.seated
  have hcases : ((d.loop.game.world.held user j).revealed = true ∧
      ¬ d.loop.place.Shows user j) ∨
        .tellReveal user j ∈ d.loop.sends d'.loop.place := by
    rw [hblocks, hscreen, Turning, List.mem_append, List.mem_append]
      at hback
    rcases hback with ((htell | htell) | (hover | hover)) | hphoto
    · exact .inl (h.up j (.inl (.inl htell)))
    · exact .inr htell
    · exact .inl (h.up j (.inl (.inr hover)))
    · exact absurd hover (turnOver_notMem_sends _ _ j)
    · exact .inl (h.up j (.inr hphoto))
  cases hslot with
  | turns hturns hiff =>
      cases hturns with
      | keep hface _ hsilent =>
          obtain ⟨hup, hshows⟩ := hcases.resolve_right hsilent
          exact ⟨hface.trans hup, fun hs => hshows (hiff.mp hs)⟩
      | lose hdown hup _ =>
          refine ⟨hup, fun hs => ?_⟩
          rw [hpictured.shown j (hiff.mp hs)] at hdown
          cases hdown
  | «show» hshowing hshows _ hseen =>
      have hdown := hfresh hshowing j
      rw [huser, hunshown] at hdown
      have hup := hseen (hcases.imp And.left id)
      rw [hdown hshows] at hup
      cases hup
  | replace hshows _ _ hsilent =>
      exact absurd hshows (hcases.resolve_right hsilent).2

theorem Backed.runBlock (h : Backed user d)
    (hpictured : Pictured F created w₀ user d)
    (hone : OneUser user d.loop.game)
    (hstep : stepDisplay d (.runBlock early) = .ok d') : Backed user d' := by
  obtain ⟨htable, -⟩ := hpictured.seen early
  obtain ⟨block, blocks, hblocks, hloop, -, hpaints⟩ :=
    hpictured.mirrors.runBlock_paints hstep
  have hname (q : PlayerRef) (hq : q ∈ d.loop.game.world.players)
      (hseen : ((d.seen early).world.player q).name =
        (d.seen early).world.username) : q = user := by
    apply hone.unique q hq
    rw [hpictured.table.name, hpictured.table.username, ← htable.name,
      ← htable.username, hseen]
  constructor
  · rw [hloop]
    intro p j htell
    apply h.told p j
    rw [hblocks]
    exact List.mem_cons_of_mem _ (hpaints.told htell)
  · rw [hloop]
    intro j hback
    apply h.up j
    rw [hblocks]
    rcases hpaints.picture j with ⟨hkept, -⟩ | ⟨rfl, -⟩
    · rw [hkept] at hback
      refine hback.imp (fun hturning => ?_) id
      rcases hpaints.turning_of hturning with hbefore | ⟨q, rfl, hq⟩
      · exact hbefore
      · obtain rfl := hname q (h.told q j (by simp [hblocks])) hq
        exact .inl List.mem_cons_self
    · exact .inl (.inr List.mem_cons_self)

theorem Backed.step (h : Backed user d)
    (hpictured : Pictured F created w₀ user d)
    (hone : OneUser user d.loop.game) (hstep : stepDisplay d e = .ok d')
    (hfresh : FreshClaim d') : Backed user d' := by
  cases e with
  | loop e =>
      obtain ⟨i, rfl⟩ | hmain := e.thread_or_main
      · exact h.thread hpictured hstep hfresh
      · obtain ⟨hplace, hworld, hscreen, hblocks, -⟩ :=
          stepDisplay_main hstep hmain
        constructor
        · rw [hblocks, hworld]
          exact h.told
        · rw [hblocks, hscreen, hworld, hplace]
          exact h.up
  | runBlock early => exact h.runBlock hpictured hone hstep
  | willDisplay early row =>
      obtain ⟨x', rfl, hpictures⟩ := stepDisplay_willDisplay hstep
      refine ⟨h.told, fun j hback => h.up j ?_⟩
      rwa [(hpictures j).1] at hback

end Backed

section Run

variable {w : World} {user : PlayerRef} {AIs : List PlayerRef}
  {base : CardRef} {shuffling dealing : List ℕ} {lightMode : Bool}
  {d₀ d : Display} {es : List DisplayEvent}

/-- A game opens with both pictures face down. -/
theorem openDisplay_pictured (hlobby : Lobby w user AIs)
    (hopen : openDisplay w base shuffling dealing lightMode = .ok d) :
    Pictured (gameFootprint w.players base) (createdCards base)
      (w.createCards base) user d ∧ Backed user d := by
  obtain ⟨hmirrors, hidle, hblocks, -⟩ := openDisplay_spec hlobby hopen
  rw [openDisplay, bind_eq_ok] at hopen
  obtain ⟨y, hy, hopen⟩ := hopen
  obtain ⟨hholding, htable⟩ := openLoop_holding hlobby hy
  obtain ⟨s, hload, rfl⟩ := openLoop_eq_ok.mp hy
  have hrange := viewDidLoad_inRange hlobby hload
  have hin := (viewDidLoad_spec hlobby hload).1
  obtain ⟨x₁, hx₁, hopen⟩ := bind_eq_ok.mp hopen
  rw [GameScreen.setupUser_eq hrange, bind_ok] at hopen
  obtain ⟨x₂, hx₂, hopen⟩ := bind_eq_ok.mp hopen
  cases hopen
  have hback (j : Slot) : x₂.currentUserCard j = .back ∧
      x₂.cardImageView j = .back := by
    rw [GameScreen.addAIColors] at hx₁
    split at hx₁
    next => cases hx₁
    next =>
      cases hx₁
      obtain ⟨hkept, hview⟩ := (GameScreen.showUser_pictures _ _).trans
        (GameScreen.reloadData_pictures x₂ hx₂) j
      cases j with
      | first | second => exact ⟨hkept, hview.elim id id⟩
  have hdown (j : Slot) : (s.world.held user j).revealed = false :=
    openSession_faceDown hlobby (bind_eq_ok.mpr ⟨s, hload, rfl⟩) user
      (hin.user ▸ hin.user_mem) j
  have hup (j : Slot) : (s.world.held user j).revealed ≠ true := by
    rw [hdown]
    exact Bool.false_ne_true
  refine ⟨⟨hmirrors, hholding, htable, hin.user, fun j => False.elim,
    fun hshowing => ?_, fun j => ?_, fun j _ _ h => absurd h (hup j)⟩,
    ⟨fun p j htell => ?_, fun j hback' => ?_⟩⟩
  · cases hshowing
  · exact (hback j).2.trans (hback j).1.symm
  · cases htell
  · rcases hback' with (htell | hover) | hphoto
    · cases htell
    · cases hover
    · exact absurd (hback j).1 hphoto

theorem pictured_run (hlobby : Lobby w user AIs)
    (hopen : openDisplay w base shuffling dealing lightMode = .ok d₀)
    (hrun : run stepDisplay d₀ es = .ok d) :
    Pictured (gameFootprint w.players base) (createdCards base)
      (w.createCards base) user d :=
  run_invariant (fun _ _ _ h hstep => h.step hlobby.userName hstep) hrun
    (openDisplay_pictured hlobby hopen).1

theorem backed_run (hlobby : Lobby w user AIs) (hname : UserNameUnique w AIs)
    (hopen : openDisplay w base shuffling dealing lightMode = .ok d₀)
    (hrun : run stepDisplay d₀ es = .ok d)
    (hfresh : EachStep stepDisplay (fun _ _ d' => FreshClaim d') d₀ es) :
    Backed user d := by
  obtain ⟨hpictured, hbacked⟩ := openDisplay_pictured hlobby hopen
  have hboth : Pictured (gameFootprint w.players base) (createdCards base)
      (w.createCards base) user d ∧ Backed user d := by
    refine run_invariant_of_eachStep
      (P := fun _ _ d' => FreshClaim d')
      (I := fun d => Pictured (gameFootprint w.players base)
        (createdCards base) (w.createCards base) user d ∧ Backed user d)
      ?_ hrun hfresh ⟨hpictured, hbacked⟩
    rintro d e d' ⟨hd, hback⟩ hstep hclaim
    have hone := oneUser_of_sameTable hlobby hname hd.table
    exact ⟨hd.step hlobby.userName hstep, hback.step hd hone hstep hclaim⟩
  exact hboth.2

/-- In every order of the events, also when blocks run late: once no block
waits for it and it is not shown for a challenge, a card of the user that is
face up shows its photo.  If no card was shown that was face up before, then
between two steps of the thread a card that is hidden or shown for a challenge
shows its back. -/
theorem pictures_current (hlobby : Lobby w user AIs)
    (hopen : openDisplay w base shuffling dealing lightMode = .ok d₀)
    (hrun : run stepDisplay d₀ es = .ok d) (j : Slot) :
    (¬ Turning d.blocks user j → ¬ d.loop.place.Shows user j →
      (d.loop.game.world.held user j).revealed = true →
      d.screen.cardImageView j =
        .photo (d.loop.game.world.held user j).role) ∧
    (UserNameUnique w AIs →
      EachStep stepDisplay (fun _ _ d' => FreshClaim d') d₀ es →
      (d.loop.game.world.held user j).revealed = false ∨
        d.loop.place.Shows user j →
      d.screen.cardImageView j = .back) := by
  have hpictured := pictured_run hlobby hopen hrun
  rw [hpictured.views]
  refine ⟨hpictured.photo j, fun hname hfresh hhidden => ?_⟩
  have hbacked := backed_run hlobby hname hopen hrun hfresh
  by_contra hphoto
  obtain ⟨hup, hshows⟩ := hbacked.up j (.inr hphoto)
  rcases hhidden with hdown | hshown
  · rw [hdown] at hup
    cases hup
  · exact hshows hshown

end Run

def boldBlock : DisplayEvent := .loop boldStep

/-- The user's turn begins, and the user presses a button. -/
def pressedTurn (q : Press) : List DisplayEvent :=
  List.replicate 3 boldBlock ++ [.loop .deliver, .loop (.press q)]

/-- The user shows a duke and gets another card for it, the AI takes income,
the user claims an exchange and is caught, and the blocks run. -/
def wonThenLost : List DisplayEvent :=
  pressedTurn .tax ++ List.replicate 21 boldBlock ++ pressedTurn .exchange ++
    List.replicate 12 boldBlock ++ List.replicate 15 (.runBlock false)

theorem pictures_current_wonThenLost :
    ∃ d₀ d, openDisplay firstLobby 1 (List.range 15) [4, 8] true = .ok d₀ ∧
      run stepDisplay d₀ wonThenLost = .ok d ∧
      d.screen.cardImageView .first = .photo .captain ∧
      d.screen.cardImageView .second = .back := by
  have hcheck : checkFrom stepDisplay (fun _ _ d' => decide (FreshClaim d'))
      (fun d => decide (d.blocks = [] ∧ ¬ d.loop.place.Shows 0 .first ∧
        (d.loop.game.world.held 0 .first).revealed = true ∧
        (d.loop.game.world.held 0 .first).role = .captain ∧
        (d.loop.game.world.held 0 .second).revealed = false))
      (openDisplay firstLobby 1 (List.range 15) [4, 8] true)
      wonThenLost = true := by
    decide +kernel
  obtain ⟨d₀, d, hopen, hrun, heach, hend⟩ := exists_of_checkFrom hcheck
  obtain ⟨hdone, hshows, hup, hrole, hdown⟩ := of_decide_eq_true hend
  have hfresh : EachStep stepDisplay (fun _ _ d' => FreshClaim d') d₀
      wonThenLost :=
    heach.imp fun _ _ _ _ _ _ _ h => of_decide_eq_true h
  have hnone : ¬ Turning d.blocks 0 .first := by
    rw [hdone]
    rintro (h | h) <;> cases h
  have hcurrent := pictures_current (lobbyOf_one "user" "Charlie Puth") hopen
    hrun
  have hphoto := (hcurrent .first).1 hnone hshows hup
  rw [hrole] at hphoto
  exact ⟨d₀, d, hopen, hrun, hphoto, (hcurrent .second).2
    (lobbyOf_userNameUnique [] (by decide)) hfresh (.inl hdown)⟩

/-- The user is caught with an exchange and turns up a duke, shows the same
duke for tax in the next turn, and gets a hidden card for it. -/
def dukeTwice : List DisplayEvent :=
  pressedTurn .exchange ++ List.replicate 12 boldBlock ++
    List.replicate 6 (.runBlock false) ++ List.replicate 7 boldBlock ++
    pressedTurn .tax ++ List.replicate 14 boldBlock ++
    List.replicate 9 (.runBlock false)

/-- The new card is a captain and hidden, and its picture shows the duke. -/
theorem stale_photo :
    ∃ d₀ d, openDisplay firstLobby 1 (List.range 15) [4, 8] true = .ok d₀ ∧
      run stepDisplay d₀ dukeTwice = .ok d ∧ d.blocks = [] ∧
      (d.loop.game.world.held 0 .first).revealed = false ∧
      (d.loop.game.world.held 0 .first).role = .captain ∧
      d.screen.cardImageView .first = .photo .duke := by
  have hcheck : checkFrom stepDisplay (fun _ _ _ => true)
      (fun d => decide (d.blocks = [] ∧
        (d.loop.game.world.held 0 .first).revealed = false ∧
        (d.loop.game.world.held 0 .first).role = .captain ∧
        d.screen.cardImageView .first = .photo .duke))
      (openDisplay firstLobby 1 (List.range 15) [4, 8] true)
      dukeTwice = true := by
    decide +kernel
  obtain ⟨d₀, d, hopen, hrun, -, hend⟩ := exists_of_checkFrom hcheck
  exact ⟨d₀, d, hopen, hrun, of_decide_eq_true hend⟩

end Coup
