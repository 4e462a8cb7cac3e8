import FixWire.Proofs.Decoder.Machine
import Mathlib.Data.List.Induction
import Mathlib.Tactic.Common

/-!
# What earlier messages leave behind

A decoder that is used for another message keeps what it has for the members that the message does not have. For the
flat machine this is an overlay : it never looks at what its parts hold, and what it places there is always present, so
a run that starts with parts that hold something already ends with the parts of a run that does not, laid over those
(`Machine.run_above`). What is held after several messages is one overlay after the other (`holdings`).
-/

namespace FixWire.Decoder

/-! ## Overlays -/

/-- Whether the message has the member. -/
def Node.isPresent : Node → Bool
  | .field _ value => value.isPresent
  | .group _ present _ _ => present

/-- The nodes of a message over those of earlier ones : where the message has no member, the earlier node stays. -/
def overlay (old new : List Node) : List Node :=
  List.zipWith (fun o n => if n.isPresent then n else o) old new

theorem Node.isPresent_blank (m : Member) : (Node.blank m).isPresent = false := by
  cases m <;> rfl

theorem Node.isPresent_given (value : Bytes) (m : Member) : (Node.given value m).isPresent = true := by
  cases m <;> rfl

theorem map_tag_place (node : Node) : ∀ ns : List Node, (Node.place node ns).map Node.tag = ns.map Node.tag
  | [] => rfl
  | n :: rest => by
    rw [Node.place]
    split_ifs with h
    · rw [List.map_cons, List.map_cons, h]
    · rw [List.map_cons, List.map_cons, map_tag_place node rest]

/-- An overlay of nodes of the same members has these members. -/
theorem map_tag_overlay : ∀ {old new : List Node}, old.map Node.tag = new.map Node.tag →
    (overlay old new).map Node.tag = old.map Node.tag
  | [], [], _ => rfl
  | o :: old, n :: new, h => by
    obtain ⟨ho, hrest⟩ := List.cons.inj h
    have hrest' : (overlay old new).map Node.tag = old.map Node.tag := map_tag_overlay hrest
    rw [overlay, List.zipWith_cons_cons, List.map_cons, List.map_cons, ← overlay, hrest']
    split_ifs
    · rw [ho]
    · rfl

/-- Placing a node that is present in an overlay is placing it in what is on top. -/
theorem overlay_place {node : Node} (hnode : node.isPresent = true) : ∀ {old new : List Node},
    old.map Node.tag = new.map Node.tag → overlay old (Node.place node new) = Node.place node (overlay old new)
  | [], [], _ => rfl
  | o :: old, n :: new, h => by
    obtain ⟨ho, hrest⟩ := List.cons.inj h
    have htag : (if n.isPresent then n else o).tag = n.tag := by
      split_ifs
      · rfl
      · exact ho
    have ih : overlay old (Node.place node new) = Node.place node (overlay old new) := overlay_place hnode hrest
    simp only [overlay, List.zipWith_cons_cons, Node.place, htag] at ih ⊢
    by_cases hn : n.tag = node.tag
    · rw [if_pos hn, if_pos hn, List.zipWith_cons_cons, if_pos hnode]
    · rw [if_neg hn, if_neg hn, List.zipWith_cons_cons, ih]

/-- Nothing is laid over the nodes of earlier messages by a message of which nothing has been read. -/
theorem overlay_of_absent : ∀ {old new : List Node}, old.length = new.length →
    (∀ n ∈ new, n.isPresent = false) → overlay old new = old
  | [], [], _, _ => rfl
  | o :: old, n :: new, hlen, h => by
    obtain ⟨hn, hrest⟩ := List.forall_mem_cons.1 h
    rw [overlay, List.zipWith_cons_cons, hn, ← overlay, overlay_of_absent (Nat.succ.inj hlen) hrest]
    rfl

/-! ## Runs over an overlay -/

namespace Machine

/-- The machine with its parts laid over nodes that are held already. -/
def above (s : Machine) (held : Part → List Node) : Machine :=
  { s with parts := fun part => overlay (held part) (s.parts part) }

/-- The nodes that are held are those of the members of the parts. -/
def Aligned (held : Part → List Node) (s : Machine) : Prop :=
  ∀ part, (held part).map Node.tag = (s.parts part).map Node.tag

/-- What is done to the machine is the same over nodes that are held already. -/
def Commutes (held : Part → List Node) (f : Machine → Machine) : Prop :=
  ∀ {s : Machine}, s.Aligned held → (f s).Aligned held ∧ f (s.above held) = (f s).above held

variable {held : Part → List Node} {l : MessageLayout}

theorem commutes_placeInPart (part : Part) {node : Node} (hnode : node.isPresent = true) :
    Commutes held fun s => s.placeInPart part node := by
  intro s h
  refine ⟨fun q => ?_, ?_⟩
  · dsimp only [placeInPart]
    split_ifs
    · rw [map_tag_place, h q]
    · exact h q
  · dsimp only [placeInPart, above]
    refine congrArg (fun parts => { s with parts }) (funext fun q => ?_)
    split_ifs
    · exact (overlay_place hnode (h q)).symm
    · rfl

theorem commutes_closeInner : Commutes held closeInner := by
  intro s h
  -- What is held shows in the parts only, so the outermost group is the one that matters.
  cases hframes : s.frames with
  | nil =>
    have hkeep {s : Machine} (hs : s.frames = []) : s.closeInner = s := by rw [closeInner, hs]
    rw [hkeep hframes, hkeep (s := s.above held) hframes]
    exact ⟨h, rfl⟩
  | cons f outer =>
    cases outer with
    | nil =>
      have hclose {s : Machine} (hs : s.frames = [f]) : s.closeInner =
          { s.placeInPart s.base f.node with
            frames := [], events := s.events ++ [.closed f.slot f.declared f.repetitions.length] } := by
        rw [closeInner, hs]
      have hpresent : f.node.isPresent = true := rfl
      obtain ⟨haligned, hplace⟩ := commutes_placeInPart s.base hpresent h
      rw [hclose hframes, hclose (s := s.above held) hframes]
      refine ⟨haligned, ?_⟩
      have hbase : (s.above held).base = s.base := rfl
      dsimp only at hplace
      rw [hbase, hplace]
      rfl
    | cons g rest =>
      have hclose {s : Machine} (hs : s.frames = f :: g :: rest) : s.closeInner =
          { s with
            frames := g.fill f.node :: rest
            events := s.events ++ [.closed f.slot f.declared f.repetitions.length] } := by
        rw [closeInner, hs]
      rw [hclose hframes, hclose (s := s.above held) hframes]
      exact ⟨h, rfl⟩

theorem commutes_close : ∀ n : Nat, Commutes held (close n)
  | 0, _, h => ⟨h, rfl⟩
  | n + 1, s, h => by
    obtain ⟨haligned, hinner⟩ := commutes_closeInner h
    obtain ⟨haligned', hclose⟩ := commutes_close n haligned
    exact ⟨haligned', by rw [close, close, hinner, hclose]⟩

theorem commutes_closeAll : Commutes held closeAll :=
  fun {s} h => commutes_close s.frames.length h

theorem commutes_giveGroup (p : Pair) : Commutes held (·.giveGroup p) := by
  intro s h
  unfold giveGroup
  dsimp only [above]
  split
  · exact ⟨h, rfl⟩
  · split <;> exact ⟨h, rfl⟩

theorem commutes_givePart (part : Part) (p : Pair) : Commutes held (givePart l · part p) := by
  intro s h
  unfold givePart
  dsimp only [above]
  cases hm : memberOf? (l.part part).members p.tag with
  | none => exact ⟨h, rfl⟩
  | some m =>
    obtain ⟨haligned, hplace⟩ := commutes_placeInPart part (Node.isPresent_given p.value m) h
    exact ⟨haligned, congrArg (fun s' : Machine => { s' with
      frames := (Frame.opened? p.value m).toList
      base := part
      summed := s.summed || l.isSum part p.tag
      events := s.events ++ [Event.given (.part part) p.value m] }) hplace⟩

/-- A pair does the same over nodes that are held already. -/
theorem step_above {s : Machine} (h : s.Aligned held) (p : Pair) :
    (∀ s', s.step l p = some s' → s'.Aligned held) ∧
      (s.above held).step l p = (s.step l p).map (·.above held) := by
  unfold step
  have hdepth : (s.above held).ownerDepth? p.tag = s.ownerDepth? p.tag := rfl
  rw [hdepth]
  cases s.ownerDepth? p.tag with
  | some depth =>
    obtain ⟨hclosed, hclose⟩ := commutes_close depth h
    obtain ⟨hgiven, hgive⟩ := commutes_giveGroup p hclosed
    refine ⟨?_, by dsimp only at hgive ⊢; rw [hclose, hgive]; rfl⟩
    rintro s' ⟨⟩
    exact hgiven
  | none =>
    cases l.owner? p.tag with
    | some part =>
      obtain ⟨hclosed, hclose⟩ := commutes_closeAll h
      obtain ⟨hgiven, hgive⟩ := commutes_givePart (l := l) part p hclosed
      dsimp only at hgive ⊢
      have hsummed : (s.above held).summed = s.summed := rfl
      rw [hsummed, hclose, hgive]
      split_ifs
      · exact ⟨nofun, rfl⟩
      · refine ⟨?_, rfl⟩
        rintro s' ⟨⟩
        exact hgiven
    | none =>
      have hend : ((s.above held).summed && (s.above held).frames.isEmpty) = (s.summed && s.frames.isEmpty) := rfl
      dsimp only
      rw [hend]
      split_ifs
      · exact ⟨nofun, rfl⟩
      · refine ⟨?_, rfl⟩
        rintro s' ⟨⟩
        exact h

/-- A run over nodes that are held already ends with what it places laid over them. -/
theorem run_above : ∀ (pairs : List Pair) {s : Machine}, s.Aligned held →
    (s.run l pairs).Aligned held ∧ (s.above held).run l pairs = (s.run l pairs).above held
  | [], _, h => commutes_closeAll h
  | p :: rest, s, h => by
    obtain ⟨haligned, hstep⟩ := step_above (l := l) h p
    rw [run, run, hstep]
    cases hs : s.step l p with
    | none => exact commutes_closeAll h
    | some s' => exact run_above rest (haligned s' hs)

end Machine

/-! ## After several messages -/

/-- What is held after some messages, the latest last : for each member the node of the latest message that has it. -/
def holdings (l : MessageLayout) (windows : List Bytes) : Part → List Node :=
  windows.foldl (fun held window part => overlay (held part) ((flatly l window).parts part)) (Machine.start l).parts

variable {l : MessageLayout}

theorem holdings_concat (windows : List Bytes) (window : Bytes) (part : Part) :
    holdings l (windows ++ [window]) part = overlay (holdings l windows part) ((flatly l window).parts part) := by
  rw [holdings, List.foldl_append]
  rfl

/-- The messages have nodes for the members of the layout. -/
theorem aligned_flatly {held : Part → List Node} (h : (Machine.start l).Aligned held) (window : Bytes) :
    (flatly l window).Aligned held :=
  (Machine.run_above (Pair.all window) h).1

/-- What is held are nodes for the members of the layout. -/
theorem aligned_holdings (windows : List Bytes) : (Machine.start l).Aligned (holdings l windows) := by
  induction windows using List.reverseRecOn with
  | nil => exact fun _ => rfl
  | append_singleton windows window ih =>
    intro part
    rw [holdings_concat, map_tag_overlay (aligned_flatly ih window part), ih part]

/-- The parts of the machine that starts over what is held are those that are held. -/
theorem parts_start_above {held : Part → List Node} (h : (Machine.start l).Aligned held) (part : Part) :
    ((Machine.start l).above held).parts part = held part := by
  refine overlay_of_absent ?_ ?_
  · simpa using congrArg List.length (h part)
  · intro n hn
    obtain ⟨m, -, rfl⟩ := List.mem_map.1 hn
    exact Node.isPresent_blank m

end FixWire.Decoder
