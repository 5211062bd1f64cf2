import Parley.Proofs.Draft.Waiting

/-!
# Which lines a spoken line follows

A spoken line becomes the successor of some of the lines that wait.  After a line
these are the innermost waiting line and the strays that are at least as deep as the
new line; if no choice is open around the new line, they are also the strays that are
deeper, among them the lines that it leaves behind itself.  Strays are taken from the
last one on, up to the first that is too shallow.  The lines that are followed wait
no longer, and no other line gets a successor.
-/

namespace Parley

open Parley.Script

/-- Some lines have got a successor, and nothing else about lines has changed. -/
structure Graph.Linked (before after : Graph) (changed : List LineIndex) (node : LineIndex) :
    Prop where
  size : after.lines.size = before.lines.size
  unlinked : ∀ id, (after.line id).unlinked = (before.line id).unlinked
  next : ∀ id < before.lines.size,
    (after.line id).next = if id ∈ changed then some node else (before.line id).next

namespace Graph.Linked

variable {before middle after : Graph} {node : LineIndex}

theorem of_lines_eq (same : after.lines = before.lines) (node : LineIndex) :
    before.Linked after [] node where
  size := congrArg Array.size same
  unlinked id := by rw [Graph.line_congr same]
  next id _ := by
    rw [Graph.line_congr same]
    rfl

/-- Two rounds of links to one node, between which the line in question keeps its successor. -/
theorem next_through {other : Graph} {first second : List LineIndex} {id : LineIndex}
    (early : before.Linked middle first node) (kept : (other.line id).next = (middle.line id).next)
    (late : other.Linked after second node) (known : id < before.lines.size)
    (present : id < other.lines.size) :
    (after.line id).next = if id ∈ first ++ second then some node else (before.line id).next := by
  rw [late.next id present, kept, early.next id known]
  by_cases taken : id ∈ second
  · rw [if_pos taken, if_pos (List.mem_append_right _ taken)]
  · rw [if_neg taken]
    simp [taken]

theorem trans {first second : List LineIndex} (early : before.Linked middle first node)
    (late : middle.Linked after second node) : before.Linked after (first ++ second) node where
  size := late.size.trans early.size
  unlinked id := (late.unlinked id).trans (early.unlinked id)
  next _ known := early.next_through rfl late known (early.size ▸ known)

theorem setNext (graph : Graph) (changed node : LineIndex) :
    graph.Linked (graph.setNext changed node) [changed] node where
  size := graph.size_lines_setNext changed node
  unlinked id := by
    rw [Graph.setNext, line_modifyLine_eq]
    split <;> rfl
  next id known := by
    rw [next_setNext]
    by_cases same : changed = id
    · rw [if_pos ⟨same, known⟩, if_pos (List.mem_singleton.mpr same.symm)]
    · rw [if_neg (fun both => same both.1)]
      rw [if_neg (fun member => same (List.mem_singleton.mp member).symm)]

/-- Several lines that get the same successor. -/
theorem foldl_setNext (graph : Graph) (nodes : List OpenNode) (node : LineIndex) :
    graph.Linked (nodes.foldl (fun graph stray => graph.setNext stray.id node) graph)
      (nodes.map OpenNode.id) node := by
  induction nodes generalizing graph with
  | nil => exact of_lines_eq rfl node
  | cons first rest ih =>
      exact (setNext graph first.id node).trans (ih (graph.setNext first.id node))

end Graph.Linked

namespace Draft

variable {draft next : Draft}

/-- The waiting lines that a spoken line at an indentation follows directly. -/
def followed (draft : Draft) (indent : Nat) : List OpenNode :=
  if draft.latest = .line then
    draft.lines.take 1 ++ draft.strays.takeWhile fun stray => indent ≤ stray.indent
  else []

/-- The draft in which the lines followed directly wait no longer. -/
def release (draft : Draft) (indent : Nat) : Draft :=
  { draft with
    lines := if draft.latest = .line then draft.lines.drop 1 else draft.lines
    strays :=
      if draft.latest = .line then draft.strays.dropWhile fun stray => indent ≤ stray.indent
      else draft.strays }

/-- The deeper strays that a spoken line at an indentation follows as well, if no
choice is open around it. -/
def gathered (draft : Draft) (indent : Nat) : List OpenNode :=
  let left := (draft.release indent).dedent indent
  if left.choices.isEmpty then left.strays.takeWhile fun stray => indent < stray.indent else []

/-- The strays that remain once a spoken line has been placed. -/
def spared (draft : Draft) (indent : Nat) : List OpenNode :=
  let left := (draft.release indent).dedent indent
  if left.choices.isEmpty then left.strays.dropWhile fun stray => indent < stray.indent
  else left.strays

/-- The lines that a spoken line at an indentation follows. -/
def predecessors (draft : Draft) (indent : Nat) : List LineIndex :=
  (draft.followed indent).map OpenNode.id ++ (draft.gathered indent).map OpenNode.id

/-- What a spoken line follows directly and what is left is all that waited. -/
theorem waitingNodes_perm_followed (draft : Draft) (indent : Nat) :
    draft.waitingNodes.Perm (draft.followed indent ++ (draft.release indent).waitingNodes) := by
  have shuffled : ∀ first second third fourth : List OpenNode,
      ((first ++ second) ++ (third ++ fourth)).Perm ((first ++ third) ++ (second ++ fourth)) := by
    intro first second third fourth
    rw [List.append_assoc, List.append_assoc]
    exact (List.perm_append_comm_assoc second third fourth).append_left first
  rw [waitingNodes, waitingNodes, release]
  unfold followed
  split
  · have moved := shuffled (draft.lines.take 1) (draft.lines.drop 1)
      (draft.strays.takeWhile fun stray => indent ≤ stray.indent)
      (draft.strays.dropWhile fun stray => indent ≤ stray.indent)
    rw [List.take_append_drop, List.takeWhile_append_dropWhile] at moved
    exact moved
  · exact List.Perm.refl _

/-- The strays are those that a spoken line follows and those that remain. -/
theorem strays_eq_gathered_append (draft : Draft) (indent : Nat) :
    ((draft.release indent).dedent indent).strays =
      draft.gathered indent ++ draft.spared indent := by
  unfold gathered spared
  dsimp only
  split
  · exact List.takeWhile_append_dropWhile.symm
  · rfl

/-- What a spoken line follows and what waits on is all that waited. -/
theorem waiting_perm_predecessors (draft : Draft) (indent : Nat) :
    draft.waiting.Perm (draft.predecessors indent ++
      (((draft.release indent).dedent indent).lines ++ draft.spared indent).map OpenNode.id) := by
  have dedented : (draft.release indent).waitingNodes.Perm
      (draft.gathered indent ++
        (((draft.release indent).dedent indent).lines ++ draft.spared indent)) := by
    apply ((draft.release indent).waitingNodes_abandonDeepLines_perm indent).symm.trans
    show (((draft.release indent).dedent indent).lines ++
      ((draft.release indent).dedent indent).strays).Perm _
    rw [strays_eq_gathered_append]
    exact List.perm_append_comm_assoc _ _ _
  have all := (draft.waitingNodes_perm_followed indent).trans
    (dedented.append_left (draft.followed indent))
  rw [← List.append_assoc] at all
  have ids := all.map OpenNode.id
  rw [List.map_append, List.map_append] at ids
  exact ids

/-! ## Placing a spoken line -/

/-- Attaching a spoken line links the lines that it follows directly. -/
theorem linked_attachSpeech {title : String} {id : LineIndex} {indent : Nat}
    (attached : draft.attachSpeech title id indent = .ok next) :
    draft.graph.Linked next.graph ((draft.followed indent).map OpenNode.id) id ∧
      next.lines = (draft.release indent).lines ∧ next.strays = (draft.release indent).strays ∧
      next.choices = draft.choices := by
  -- Only after a line does the new one follow lines that wait.
  have untouched : draft.latest ≠ .line → next.graph.lines = draft.graph.lines →
      next.lines = draft.lines → next.strays = draft.strays → next.choices = draft.choices →
      draft.graph.Linked next.graph ((draft.followed indent).map OpenNode.id) id ∧
        next.lines = (draft.release indent).lines ∧
        next.strays = (draft.release indent).strays ∧ next.choices = draft.choices := by
    intro other graph lines strays choices
    rw [followed, release, if_neg other, if_neg other, if_neg other]
    exact ⟨Graph.Linked.of_lines_eq graph id, lines, strays, choices⟩
  unfold attachSpeech at attached
  split at attached
  · rename_i latest
    cases attached
    exact untouched (by simp [latest]) rfl rfl rfl rfl
  · rename_i latest
    cases attached
    exact untouched (by simp [latest]) rfl rfl rfl rfl
  · rename_i latest
    split at attached
    · cases attached
    · rename_i earlier waiting stack
      cases attached
      rw [followed, release, if_pos latest, if_pos latest, if_pos latest, stack]
      have links := (Graph.Linked.setNext draft.graph earlier.id id).trans
        (Graph.Linked.foldl_setNext _
          (draft.strays.takeWhile fun stray => indent ≤ stray.indent) id)
      exact ⟨links, rfl, rfl, rfl⟩
  · rename_i latest
    split at attached <;> cases attached <;> exact untouched (by simp [latest]) rfl rfl rfl rfl
  · rename_i latest
    split at attached <;> cases attached <;> exact untouched (by simp [latest]) rfl rfl rfl rfl

/-- A spoken line without return markers waits, one with return markers does not;
either way no other line is touched. -/
theorem directSpeech_eq_ok {id : LineIndex} {indent depth : Nat}
    (directed : draft.directSpeech id indent depth = .ok next) :
    next.lines = (if depth = 0 then [⟨id, indent⟩] else []) ++ draft.lines ∧
      next.strays = draft.strays ∧ next.choices = draft.choices ∧
      next.graph.lines.size = draft.graph.lines.size ∧
      (∀ other, (next.graph.line other).unlinked = (draft.graph.line other).unlinked) ∧
      ∀ other, (depth = 0 ∨ other ≠ id) →
        (next.graph.line other).next = (draft.graph.line other).next := by
  unfold directSpeech at directed
  split at directed
  · rename_i plain
    cases directed
    rw [if_pos plain]
    exact ⟨rfl, rfl, rfl, rfl, fun _ => rfl, fun _ _ => rfl⟩
  · rename_i marked
    split at directed
    · cases directed
    · rename_i target _
      cases directed
      rw [if_neg marked]
      have links := Graph.Linked.setNext draft.graph id target
      have others : ∀ other, (depth = 0 ∨ other ≠ id) →
          ((draft.graph.setNext id target).line other).next = (draft.graph.line other).next := by
        rintro other (plain | different)
        · exact absurd plain marked
        · rw [Graph.next_setNext, if_neg fun both => different both.1.symm]
      exact ⟨rfl, rfl, rfl, links.size, links.unlinked, others⟩

/-- Gathering links the deeper strays, unless a choice is open. -/
theorem linked_gatherStrays (draft : Draft) (id : LineIndex) (indent : Nat) :
    draft.graph.Linked (draft.gatherStrays id indent).graph
        ((if draft.choices.isEmpty then draft.strays.takeWhile fun stray => indent < stray.indent
          else []).map OpenNode.id) id ∧
      (draft.gatherStrays id indent).lines = draft.lines ∧
      (draft.gatherStrays id indent).strays =
        if draft.choices.isEmpty then draft.strays.dropWhile fun stray => indent < stray.indent
        else draft.strays := by
  unfold gatherStrays
  split
  · exact ⟨Graph.Linked.foldl_setNext _ _ id, rfl, rfl⟩
  · exact ⟨Graph.Linked.of_lines_eq rfl id, rfl, rfl⟩

/-- What placing a spoken line makes of a draft in which there is room for it. -/
structure Places (opened placed : Draft) (line : Line) (indent depth : Nat) : Prop where
  size : placed.graph.lines.size = opened.graph.lines.size + 1
  said : (placed.graph.line opened.graph.lines.size).unlinked = line.unlinked
  unlinked : ∀ id < opened.graph.lines.size,
    (placed.graph.line id).unlinked = (opened.graph.line id).unlinked
  next : ∀ id < opened.graph.lines.size, (placed.graph.line id).next =
    if id ∈ opened.predecessors indent then some opened.graph.lines.size
    else (opened.graph.line id).next
  waiting : placed.waiting = (if depth = 0 then [opened.graph.lines.size] else []) ++
    (((opened.release indent).dedent indent).lines ++ opened.spared indent).map OpenNode.id
  unfollowed : depth = 0 → opened.graph.lines.size ∉ opened.predecessors indent →
    (placed.graph.line opened.graph.lines.size).next = none

/-- What a dedent leaves on the stacks depends on the stacks alone. -/
theorem dedent_congr {left right : Draft} (lines : left.lines = right.lines)
    (strays : left.strays = right.strays) (choices : left.choices = right.choices) (indent : Nat) :
    (left.dedent indent).lines = (right.dedent indent).lines ∧
      (left.dedent indent).strays = (right.dedent indent).strays ∧
      (left.dedent indent).choices = (right.dedent indent).choices := by
  simp only [dedent, leaveChoices, abandonDeepLines, lines, strays, choices, and_self]

/-- Placing a line attaches it, leaves what is deeper, directs it and gathers strays. -/
theorem places_of_attachSpeech {opened attached directed : Draft} {title : String} {line : Line}
    {indent depth : Nat} (leadsNowhere : line.next = none)
    (attach : (opened.addLine line).attachSpeech title opened.graph.lines.size indent =
      .ok attached)
    (direct : (attached.dedent indent).directSpeech opened.graph.lines.size indent depth =
      .ok directed) :
    opened.Places
      { directed.gatherStrays opened.graph.lines.size indent with latest := .line }
      line indent depth := by
  obtain ⟨attachLinks, attachLines, attachStrays, attachChoices⟩ := linked_attachSpeech attach
  obtain ⟨directLines, directStrays, directChoices, directSize, directSaid, directNext⟩ :=
    directSpeech_eq_ok direct
  obtain ⟨gatherLinks, gatherLines, gatherStrays⟩ :=
    linked_gatherStrays directed opened.graph.lines.size indent
  -- The stacks are those of the draft in which the lines followed directly are released.
  obtain ⟨lines, strays, choices⟩ :=
    dedent_congr attachLines attachStrays attachChoices indent
  rw [directStrays, directChoices, strays, choices] at gatherLinks gatherStrays
  have addedSize : (opened.addLine line).graph.lines.size = opened.graph.lines.size + 1 :=
    opened.graph.size_lines_addLine line
  have directedSize : directed.graph.lines.size = opened.graph.lines.size + 1 :=
    directSize.trans (attachLinks.size.trans addedSize)
  have unlinked : ∀ id,
      ((directed.gatherStrays opened.graph.lines.size indent).graph.line id).unlinked =
        ((opened.addLine line).graph.line id).unlinked := by
    intro id
    exact (gatherLinks.unlinked id).trans ((directSaid id).trans (attachLinks.unlinked id))
  -- Only a line with return markers gets its successor in another way.
  have followers : ∀ id < opened.graph.lines.size + 1,
      (depth = 0 ∨ id ≠ opened.graph.lines.size) →
      ((directed.gatherStrays opened.graph.lines.size indent).graph.line id).next =
        if id ∈ opened.predecessors indent then some opened.graph.lines.size
        else ((opened.addLine line).graph.line id).next := by
    intro id known ordinary
    exact attachLinks.next_through (directNext id ordinary) gatherLinks (addedSize ▸ known)
      (directedSize ▸ known)
  constructor
  · exact gatherLinks.size.trans directedSize
  · exact (unlinked _).trans (congrArg Line.unlinked (opened.graph.line_addLine_size line))
  · intro id known
    have older := opened.graph.line_addLine_of_lt line known
    exact (unlinked id).trans (congrArg Line.unlinked older)
  · intro id known
    have older : (opened.addLine line).graph.line id = opened.graph.line id :=
      opened.graph.line_addLine_of_lt line known
    rw [← older]
    exact followers id (Nat.lt_succ_of_lt known) (Or.inr (Nat.ne_of_lt known))
  · show ((directed.gatherStrays _ _).lines ++ (directed.gatherStrays _ _).strays).map _ = _
    rw [gatherLines, gatherStrays, directLines, lines, List.append_assoc, List.map_append]
    split <;> rfl
  · intro plain new
    have newest : (opened.addLine line).graph.line opened.graph.lines.size = line :=
      opened.graph.line_addLine_size line
    have followed := followers opened.graph.lines.size (Nat.lt_succ_self _) (Or.inl plain)
    rw [if_neg new, newest, leadsNowhere] at followed
    exact followed

/-- Reading a spoken line places it in the draft that has made room for it. -/
theorem places_of_stepSpeech {scope : Scope} {statement : Statement}
    (read : draft.stepSpeech scope statement = .ok next) :
    ∃ speech commands, Speech.read statement.content = .ok speech ∧
      readBlock scope speech.block = .ok commands ∧
      (draft.makeRoom statement.indent).Places next
        (Line.spoken speech.speaker speech.text speech.expression commands)
        statement.indent speech.returnDepth := by
  obtain ⟨title, speech, commands, attached, directed, _, _, readSpeech, readCommands, attach,
    direct, rfl⟩ := stepSpeech_eq_ok_iff.mp read
  exact ⟨speech, commands, readSpeech, readCommands, places_of_attachSpeech rfl attach direct⟩

/-- A line that is followed has waited. -/
theorem mem_waiting_of_predecessor {indent : Nat} {id : LineIndex}
    (taken : id ∈ draft.predecessors indent) : id ∈ draft.waiting :=
  (draft.waiting_perm_predecessors indent).mem_iff.mpr (List.mem_append_left _ taken)

namespace Places

variable {opened placed : Draft} {line : Line} {indent depth : Nat}

/-- The lines that waited and are not followed are those that wait on. -/
theorem mem_remaining_iff (orderly : opened.Orderly) {id : LineIndex} :
    id ∈ (((opened.release indent).dedent indent).lines ++ opened.spared indent).map OpenNode.id ↔
      id ∈ opened.waiting ∧ id ∉ opened.predecessors indent := by
  have perm := opened.waiting_perm_predecessors indent
  obtain ⟨_, _, apart⟩ := List.nodup_append.mp (perm.nodup_iff.mp orderly.nodup)
  rw [perm.mem_iff, List.mem_append]
  constructor
  · intro remains
    exact ⟨Or.inr remains, fun taken => apart id taken id remains rfl⟩
  · rintro ⟨taken | remains, free⟩
    · exact absurd taken free
    · exact remains

/-- The new line is not among those that waited. -/
theorem new_not_mem_predecessors (orderly : opened.Orderly) :
    opened.graph.lines.size ∉ opened.predecessors indent := by
  intro taken
  exact Nat.lt_irrefl _ (orderly.known _ (mem_waiting_of_predecessor taken))

theorem waiting_iff (places : opened.Places placed line indent depth) (orderly : opened.Orderly)
    {id : LineIndex} (known : id < opened.graph.lines.size) :
    id ∈ placed.waiting ↔ id ∈ opened.waiting ∧ id ∉ opened.predecessors indent := by
  rw [places.waiting, List.mem_append, mem_remaining_iff orderly]
  constructor
  · rintro (new | remains)
    · split at new
      · exact absurd (List.mem_singleton.mp new) (Nat.ne_of_lt known)
      · cases new
    · exact remains
  · exact Or.inr

theorem orderly (places : opened.Places placed line indent depth) (orderly : opened.Orderly) :
    placed.Orderly := by
  have perm := opened.waiting_perm_predecessors indent
  obtain ⟨_, remaining, _⟩ := List.nodup_append.mp (perm.nodup_iff.mp orderly.nodup)
  have older : ∀ id ∈ (((opened.release indent).dedent indent).lines ++
      opened.spared indent).map OpenNode.id, id < opened.graph.lines.size :=
    fun id remains => orderly.known id ((mem_remaining_iff orderly).mp remains).1
  constructor
  · rw [places.waiting]
    apply List.nodup_append.mpr
    constructor
    · split <;> simp
    · apply And.intro remaining
      rintro id new _ remains rfl
      split at new
      · exact Nat.ne_of_lt (older id remains) (List.mem_singleton.mp new)
      · cases new
  · intro id member
    rw [places.size]
    rw [places.waiting] at member
    rcases List.mem_append.mp member with new | remains
    · split at new
      · rw [List.mem_singleton.mp new]
        exact Nat.lt_succ_self _
      · cases new
    · exact Nat.lt_succ_of_lt (older id remains)
  · intro id member
    rw [places.waiting] at member
    rcases List.mem_append.mp member with new | remains
    · split at new
      · rename_i plain
        rw [List.mem_singleton.mp new]
        exact places.unfollowed plain (new_not_mem_predecessors orderly)
      · cases new
    · obtain ⟨waited, free⟩ := (mem_remaining_iff orderly).mp remains
      rw [places.next id (older id remains), if_neg free]
      exact orderly.unfollowed id waited

end Places

/-! ## Lines that have no place yet -/

section Unplaced

variable {after : Draft} {id : LineIndex}

theorem Orderly.nodup_strays (orderly : draft.Orderly) :
    (draft.strays.map OpenNode.id).Nodup := by
  have nodup := orderly.nodup
  rw [waiting, waitingNodes, List.map_append] at nodup
  exact (List.nodup_append.mp nodup).2.1

theorem Orderly.known_line (orderly : draft.Orderly) :
    ∀ line ∈ draft.lines, line.id < draft.graph.lines.size := by
  intro line member
  apply orderly.known
  exact List.mem_map_of_mem (List.mem_append_left draft.strays member)

theorem Orderly.known_stray (orderly : draft.Orderly) :
    ∀ stray ∈ draft.strays, stray.id < draft.graph.lines.size := by
  intro stray member
  apply orderly.known
  exact List.mem_map_of_mem (List.mem_append_right draft.lines member)

theorem Orderly.unfollowed_stray (orderly : draft.Orderly) :
    ∀ stray ∈ draft.strays, (draft.graph.line stray.id).next = none := by
  intro stray member
  apply orderly.unfollowed
  exact List.mem_map_of_mem (List.mem_append_right draft.lines member)

/-- If only lines that waited are linked and the others wait on, the draft stays orderly. -/
theorem Orderly.of_linked (orderly : draft.Orderly) {changed : List LineIndex}
    (linked : draft.graph.Linked after.graph changed id)
    (perm : draft.waiting.Perm (changed ++ after.waiting)) : after.Orderly := by
  have nodup := perm.nodup_iff.mp orderly.nodup
  obtain ⟨-, waiting, apart⟩ := List.nodup_append.mp nodup
  have waited : ∀ other ∈ after.waiting, other ∈ draft.waiting :=
    fun other member => perm.mem_iff.mpr (List.mem_append_right changed member)
  constructor
  · exact waiting
  · intro other member
    rw [linked.size]
    exact orderly.known other (waited other member)
  · intro other member
    rw [linked.next other (orderly.known other (waited other member)),
      if_neg fun taken => apart other taken other member rfl]
    exact orderly.unfollowed other (waited other member)

/-- A line that has been made, but does not wait and has no successor. -/
structure Unplaced (draft : Draft) (id : LineIndex) : Prop where
  known : id < draft.graph.lines.size
  apart : id ∉ draft.waiting
  unfollowed : (draft.graph.line id).next = none

theorem Unplaced.of_extends (unplaced : draft.Unplaced id) (extended : draft.Extends after) :
    after.Unplaced id where
  known := Nat.lt_of_lt_of_le unplaced.known extended.size
  apart waits := unplaced.apart ((extended.waiting id unplaced.known).mp waits)
  unfollowed := (extended.next id unplaced.known).trans unplaced.unfollowed

/-- A line that is added to an orderly draft has no place in it yet. -/
theorem Orderly.addLine (orderly : draft.Orderly) {line : Line} (unfollowed : line.next = none) :
    (draft.addLine line).Orderly ∧ (draft.addLine line).Unplaced draft.graph.lines.size := by
  have extended : draft.Extends (draft.addLine line) :=
    .of_push rfl unfollowed (Or.inr (List.Perm.refl _))
  constructor
  · exact extended.orderly orderly
  · constructor
    · exact (draft.graph.size_lines_addLine line).symm ▸ Nat.lt_succ_self _
    · exact fun waits => Nat.lt_irrefl _ (orderly.known _ waits)
    · exact (congrArg Line.next (draft.graph.line_addLine_size line)).trans unfollowed

/-- Attaching a line that has no place yet leaves it so, and the others in order. -/
theorem Unplaced.attachSpeech (unplaced : draft.Unplaced id) (orderly : draft.Orderly)
    {title : String} {indent : Nat} (attached : draft.attachSpeech title id indent = .ok after) :
    after.Orderly ∧ after.Unplaced id := by
  obtain ⟨linked, lines, strays, -⟩ := linked_attachSpeech attached
  have perm : draft.waiting.Perm ((draft.followed indent).map OpenNode.id ++ after.waiting) := by
    have left : after.waitingNodes = (draft.release indent).waitingNodes := by
      rw [waitingNodes, waitingNodes, lines, strays]
    have nodes := (draft.waitingNodes_perm_followed indent).map OpenNode.id
    rw [List.map_append, ← left] at nodes
    exact nodes
  constructor
  · exact orderly.of_linked linked perm
  · constructor
    · exact linked.size.symm ▸ unplaced.known
    · exact fun waits => unplaced.apart (perm.mem_iff.mpr (List.mem_append_right _ waits))
    · rw [linked.next id unplaced.known, if_neg]
      · exact unplaced.unfollowed
      · exact fun taken => unplaced.apart (perm.mem_iff.mpr (List.mem_append_left _ taken))

/-- Directing a line that has no place yet, be it to wait or to lead back, leaves the others in
order. -/
theorem Unplaced.directSpeech (unplaced : draft.Unplaced id) (orderly : draft.Orderly)
    {indent depth : Nat} (directed : draft.directSpeech id indent depth = .ok after) :
    after.Orderly := by
  obtain ⟨lines, strays, -, size, -, next⟩ := directSpeech_eq_ok directed
  have waiting : after.waiting = (if depth = 0 then [id] else []) ++ draft.waiting := by
    rw [Draft.waiting, waitingNodes, lines, strays, List.append_assoc, List.map_append]
    split <;> rfl
  by_cases plain : depth = 0
  · rw [if_pos plain] at waiting
    constructor
    · rw [waiting]
      exact List.nodup_cons.mpr ⟨unplaced.apart, orderly.nodup⟩
    · rw [waiting, size]
      exact List.forall_mem_cons.mpr ⟨unplaced.known, orderly.known⟩
    · intro other member
      rw [waiting] at member
      rw [next other (Or.inl plain)]
      rcases List.mem_cons.mp member with rfl | waits
      · exact unplaced.unfollowed
      · exact orderly.unfollowed other waits
  · rw [if_neg plain, List.nil_append] at waiting
    constructor
    · rw [waiting]
      exact orderly.nodup
    · rw [waiting, size]
      exact orderly.known
    · intro other waits
      rw [waiting] at waits
      rw [next other (Or.inr fun same => unplaced.apart (same ▸ waits))]
      exact orderly.unfollowed other waits

end Unplaced

end Draft

end Parley
