import GameTrainer.Proofs.PendingPulses
import GameTrainer.Proofs.SilentPass

/-!
# Entries that a pass only passes over

An entry is live when it is switched on and holds a patch. A pass leaves a code for the core
alone, and only ends the pulses of a patch that is switched off. Main statement: a pass over a
list is a pass over its live entries alone. Memory, the tally and the live entries come out the
same, and the other entries only put the releases of their own pulses between the events,
wherever they stand and whether or not the next patch is to be skipped.
-/

namespace GameTrainer

/-- A release sends a zero for each pending pulse, the strong motor's first. -/
theorem RumbleState.events_release (state : RumbleState) (port : UInt32) :
    (state.release port).2 =
      ([.strong, .weak].filter fun motor => (state.pulseEnd motor).isSome).map
        fun motor => ⟨port, motor, 0⟩ := by
  obtain ⟨previous, warmup, strongEnd, weakEnd⟩ := state
  cases strongEnd <;> cases weakEnd <;> rfl

namespace Cheat

/-- The entry is switched on and holds a patch. -/
def isLive (cheat : Cheat) : Bool :=
  cheat.enabled && cheat.patch?.isSome

/-- The entry without pending pulses. -/
def quieted : Cheat → Cheat :=
  mapPatch fun patch =>
    { patch with rumbleState := { patch.rumbleState with strongEnd := none, weakEnd := none } }

/-- A zero for each motor whose pulse the entry has pending, the strong one's first. -/
def releases (cheat : Cheat) : List RumbleEvent :=
  match cheat.effect with
  | .code _ => []
  | .patch patch =>
    ([.strong, .weak].filter fun motor => (patch.rumbleState.pulseEnd motor).isSome).map
      fun motor => ⟨patch.rumble.port, motor, 0⟩

/-- An entry whose pulses were ended has none pending. -/
theorem pends_quieted (cheat : Cheat) (port : UInt32) (motor : Motor) :
    cheat.quieted.pends port motor = false := by
  obtain ⟨index, description, enabled, effect⟩ := cheat
  cases effect with
  | code text => rfl
  | patch patch => cases motor <;> exact Bool.and_false _

end Cheat

/-- Results for the entries of a list: for the live ones, in order, those of a given row, and
for each other entry its own. -/
inductive Woven {α : Type} (own : Cheat → α) : List Cheat → List α → List α → Prop where
  /-- No entry has no result. -/
  | nil : Woven own [] [] []
  /-- A live entry takes the next result of the row. -/
  | live {cheat : Cheat} {rest : List Cheat} {given all : List α} (first : α)
      (h : cheat.isLive = true) (later : Woven own rest given all) :
      Woven own (cheat :: rest) (first :: given) (first :: all)
  /-- Any other entry has its own result. -/
  | idle {cheat : Cheat} {rest : List Cheat} {given all : List α}
      (h : cheat.isLive = false) (later : Woven own rest given all) :
      Woven own (cheat :: rest) given (own cheat :: all)

namespace FramePass

/-- The events that a pass sends for each entry of a list. -/
def sentForEach (pass : FramePass) (now : Nat) : List Cheat → List (List RumbleEvent)
  | [] => []
  | cheat :: rest => pass.sentFor cheat now :: (pass.applyCheat cheat now).2.sentForEach now rest

/-- The events of a pass are those that it sends for the entries, in order. -/
theorem events_applyAll (pass : FramePass) (now : Nat) (cheats : List Cheat) :
    (pass.applyAll now cheats).2.events =
      pass.events ++ (pass.sentForEach now cheats).flatten := by
  induction cheats generalizing pass with
  | nil => exact (List.append_nil _).symm
  | cons cheat rest ih =>
    have hfirst := (pass.applyCheat_sentFor cheat now).2
    rw [applyAll, sentForEach, List.flatten_cons]
    dsimp only
    rw [ih, hfirst, List.append_assoc]

/-- Passes that differ in their events at most make the same of each entry, and send the same
for it. -/
theorem applyAll_congr {first second : FramePass} (h : first.silent = second.silent) (now : Nat)
    (cheats : List Cheat) :
    (first.applyAll now cheats).1 = (second.applyAll now cheats).1 ∧
      first.sentForEach now cheats = second.sentForEach now cheats := by
  induction cheats generalizing first second with
  | nil => exact ⟨rfl, rfl⟩
  | cons cheat rest ih =>
    have hnext := silent_applyCheat_congr h (rfl : cheat.bare = cheat.bare) now now
    have hleft : (first.applyCheat cheat now).1 = (second.applyCheat cheat now).1 := by
      rw [(first.applyCheat_sentFor cheat now).1, (second.applyCheat_sentFor cheat now).1, h]
    have hsent : first.sentFor cheat now = second.sentFor cheat now := by
      rw [sentFor, sentFor, h]
    obtain ⟨hrest, hlater⟩ := ih hnext
    rw [applyAll, applyAll, sentForEach, sentForEach]
    dsimp only
    exact ⟨by rw [hleft, hrest], by rw [hsent, hlater]⟩

/-- An entry that is not live ends its pulses, and the pass goes on as it came but for the
releases. -/
theorem applyCheat_of_not_isLive (pass : FramePass) {cheat : Cheat} (now : Nat)
    (h : cheat.isLive = false) :
    pass.applyCheat cheat now =
      (cheat.quieted, { pass with events := pass.events ++ cheat.releases }) := by
  obtain ⟨index, description, enabled, effect⟩ := cheat
  cases effect with
  | code text =>
    have hpass : pass = { pass with events := pass.events ++ [] } := by rw [List.append_nil]
    exact congrArg (Prod.mk _) hpass
  | patch patch =>
    cases enabled with
    | true => cases h
    | false =>
      have hreleased : Cheat.releases ⟨index, description, false, .patch patch⟩ =
          (patch.rumbleState.release patch.rumble.port).2 :=
        (patch.rumbleState.events_release patch.rumble.port).symm
      rw [hreleased]
      rfl

/-- A pass over a list makes of its live entries what a pass over them alone makes of them, and
only quiets the others; it leaves the same memory, pending skip and tally; and it sends the same
for the live entries, and their releases for the others. -/
theorem woven_applyAll (pass : FramePass) (now : Nat) (cheats : List Cheat) :
    let live := cheats.filter Cheat.isLive
    Woven Cheat.quieted cheats (pass.applyAll now live).1 (pass.applyAll now cheats).1 ∧
      (pass.applyAll now cheats).2.silent = (pass.applyAll now live).2.silent ∧
      Woven Cheat.releases cheats (pass.sentForEach now live) (pass.sentForEach now cheats) := by
  induction cheats generalizing pass with
  | nil => exact ⟨.nil, rfl, .nil⟩
  | cons cheat rest ih =>
    intro live
    cases hlive : cheat.isLive with
    | true =>
      have hkept : live = cheat :: rest.filter Cheat.isLive := List.filter_cons_of_pos hlive
      obtain ⟨hentries, hsilent, hsent⟩ := ih (pass.applyCheat cheat now).2
      rw [hkept]
      exact ⟨.live _ hlive hentries, hsilent, .live _ hlive hsent⟩
    | false =>
      have hdropped : live = rest.filter Cheat.isLive := by
        apply List.filter_cons_of_neg
        rw [hlive]
        exact Bool.false_ne_true
      -- The pass goes on with other events, which neither the live entries nor memory see.
      have hquieted := pass.applyCheat_of_not_isLive now hlive
      have hreleased : pass.sentFor cheat now = cheat.releases := by
        rw [sentFor, pass.silent.applyCheat_of_not_isLive now hlive]
        exact List.nil_append _
      have hevents : (pass.applyCheat cheat now).2.silent = pass.silent := by
        rw [hquieted]
        rfl
      obtain ⟨hentries, hsilent, hsent⟩ := ih (pass.applyCheat cheat now).2
      obtain ⟨hleft, hpieces⟩ := applyAll_congr hevents now (rest.filter Cheat.isLive)
      have hbare : (rest.filter Cheat.isLive).map Cheat.bare =
          (rest.filter Cheat.isLive).map Cheat.bare := rfl
      have hsame := silent_applyAll_congr hevents hbare now now
      rw [hleft] at hentries
      rw [hpieces] at hsent
      rw [hdropped, applyAll, sentForEach, hreleased]
      dsimp only
      refine ⟨?_, hsilent.trans hsame, .idle hlive hsent⟩
      have hfirst : (pass.applyCheat cheat now).1 = cheat.quieted := by rw [hquieted]
      rw [hfirst]
      exact .idle hlive hentries

/-- A live entry stays live in a pass, and any other entry stays another one. -/
theorem isLive_applyCheat (pass : FramePass) (cheat : Cheat) (now : Nat) :
    (pass.applyCheat cheat now).1.isLive = cheat.isLive := by
  have hbare : ∀ any : Cheat, any.bare.isLive = any.isLive := by
    intro any
    obtain ⟨index, description, enabled, effect⟩ := any
    cases effect <;> rfl
  rw [← hbare, bare_applyCheat, hbare]

end FramePass

/-- A result of a weave is one of the row or the own one of an entry that is not live. -/
theorem Woven.mem {α : Type} {own : Cheat → α} {cheats : List Cheat} {given all : List α}
    (h : Woven own cheats given all) {one : α} (hmem : one ∈ all) :
    one ∈ given ∨ ∃ cheat ∈ cheats, one = own cheat := by
  induction h with
  | nil => cases hmem
  | live first hlive later ih =>
    rcases List.mem_cons.1 hmem with rfl | hlater
    · exact Or.inl List.mem_cons_self
    · rcases ih hlater with hgiven | ⟨cheat, hcheat, hown⟩
      · exact Or.inl (List.mem_cons_of_mem _ hgiven)
      · exact Or.inr ⟨cheat, List.mem_cons_of_mem _ hcheat, hown⟩
  | idle hidle later ih =>
    rcases List.mem_cons.1 hmem with rfl | hlater
    · exact Or.inr ⟨_, List.mem_cons_self, rfl⟩
    · rcases ih hlater with hgiven | ⟨cheat, hcheat, hown⟩
      · exact Or.inl hgiven
      · exact Or.inr ⟨cheat, List.mem_cons_of_mem _ hcheat, hown⟩

/-- A pass over a list and a pass over its live entries alone leave the same memory and the same
tally. Each live entry comes out of both the same, a patch that is switched off comes out with its
pulses ended and is otherwise as it was, and a code for the core comes out as it was. The
events of the first pass are those of the second, which it sends entry by entry, with a zero for
each pending pulse of an entry that is not live in that entry's place. -/
theorem idle_entries_only_release (cheats : List Cheat) (memory : Bytes) (now : Nat) :
    let live := cheats.filter Cheat.isLive
    let whole := applyFrame cheats memory now
    let part := applyFrame live memory now
    let sent := FramePass.sentForEach { memory := memory } now
    whole.2.memory = part.2.memory ∧ whole.2.tally = part.2.tally ∧
      Woven Cheat.quieted cheats part.1 whole.1 ∧
      part.2.events = (sent live).flatten ∧ whole.2.events = (sent cheats).flatten ∧
      Woven Cheat.releases cheats (sent live) (sent cheats) ∧
      ∀ left ∈ whole.1, left.isLive = false → ∀ port motor, left.pends port motor = false := by
  intro live whole part sent
  obtain ⟨hentries, hsilent, hsent⟩ := FramePass.woven_applyAll { memory := memory } now cheats
  have hmemory : whole.2.silent.memory = part.2.silent.memory := congrArg FramePass.memory hsilent
  have htally : whole.2.silent.tally = part.2.silent.tally := congrArg FramePass.tally hsilent
  refine ⟨hmemory, htally, hentries, FramePass.events_applyAll _ now live,
    FramePass.events_applyAll _ now cheats, hsent, ?_⟩
  intro left hleft hidle port motor
  rcases hentries.mem hleft with hpart | ⟨cheat, _, rfl⟩
  · have hlive : part.1.map Cheat.isLive = live.map Cheat.isLive :=
      FramePass.map_applyAll now (fun pass cheat => pass.isLive_applyCheat cheat now) _ live
    have hmem : left.isLive ∈ live.map Cheat.isLive := by
      rw [← hlive]
      exact List.mem_map.2 ⟨left, hpart, rfl⟩
    obtain ⟨cheat, hcheat, hsame⟩ := List.mem_map.1 hmem
    rw [(List.mem_filter.1 hcheat).2, hidle] at hsame
    cases hsame
  · exact cheat.pends_quieted port motor

/-- A patch that is switched off, with a pulse pending, between a false conditional and the patch
that this one skips. -/
example :
    let gate : Cheat := { enabled := true, effect := .patch { operation := .runNextIfEq, value := 1 } }
    let idle : Cheat :=
      { effect := .patch { rumble := { port := 3 }, rumbleState := { weakEnd := some 9 } } }
    let pin : Cheat := { enabled := true, effect := .patch { value := 5 } }
    let ran := (applyFrame [gate, idle, pin, pin] #[0] 0).2
    (ran.memory, ran.tally.skipped, ran.events) = (#[5], 1, [⟨3, .weak, 0⟩]) := by
  decide

end GameTrainer
