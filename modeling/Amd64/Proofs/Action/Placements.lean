import Amd64.Proofs.Action.Ledger

/-!
Which displacements a linker completes. A fixup has one place, and an address
can be written more than once: `Action.linked_of_finish` says that of all the
displacements that were written for one fixup the finished code knows exactly
the last, and that all of them are still what was written.
-/

namespace Amd64

/-- One displacement lies before another, with all its four bytes. -/
def Placement.Precedes (first second : Placement) : Prop :=
  first.position + 4 ≤ second.position

/-- The bytes of an address with a fixup are its displacement after what
announces it. A fixup always gets the field of four bytes, however small the
displacement is. -/
theorem Address.bytes_encode_of_fixup {address : Address} (reg : Nat)
    (h : address.fixup.isSome = true) :
    (address.encode reg).bytes =
      (address.encode reg).head ++ LittleEndian.word address.displacement := by
  rw [AddressEncoding.bytes, displacement_encode_of_fixup reg h]
  rfl

/-- A form has its placement from the address in it, which has a fixup, and
places the displacement of that address. -/
theorem Form.placement?_eq_some {form : Form} {start : Nat} {placement : Placement}
    (h : form.placement? start = some placement) :
    ∃ address, form.other = .memory address ∧ address.fixup.isSome = true ∧
      placement.displacement = address.displacement ∧
      placement.position = start + (form.beforeDisplacement address).length := by
  obtain ⟨address, hAddress, hPlacement⟩ := Option.bind_eq_some_iff.mp h
  obtain ⟨ref, hRef, -⟩ := Option.map_eq_some_iff.mp hPlacement
  rw [RegisterOrMemory.address?_eq_some_iff] at hAddress
  rw [placement?_of_carried hAddress hRef, Option.some.injEq] at h
  subst h
  exact ⟨address, hAddress, by rw [hRef]; rfl, rfl, rfl⟩

namespace Action

variable {action : Action} {actions : List Action} {a after final : Assembler}
  {placement : Placement}

/-- A step that leaves a displacement to a fixup adds the displacement among
its bytes. The place that is recorded is where it begins. -/
theorem chunks_of_placement (hApply : action.apply a = .ok after)
    (h : action.placement? a = some placement) :
    ∃ leading trailing, action.chunks a =
        [.bytes (leading ++ LittleEndian.word placement.displacement ++ trailing)] ∧
      placement.position = a.position + leading.length := by
  cases (apply_eq_ok_iff _ _ _).mp hApply with
  | emit | emitRex | newLabel | bind | emitDistance | emitJump | createFixup | translate => cases h
  | @emitAddress reg address _ hStep =>
      obtain ⟨ref, hRef, rfl⟩ := Option.map_eq_some_iff.mp h
      refine ⟨(address.encode reg).head, [], ?_, by rw [AddressEncoding.length_head]⟩
      rw [chunks, Address.bytes_encode_of_fixup reg (by rw [hRef]; rfl), List.append_nil]
  | @encode f instruction _ hStep =>
      rcases (Instruction.encode_eq_done_iff _ _ _ _).mp hStep with
        ⟨condition, target, rfl, -⟩ | ⟨form, between, hFormed, hEmit⟩
      · cases h
      · rw [placement?, Instruction.placement?_of_formedAs hFormed] at h
        obtain ⟨address, hOther, hFixup, hDisplacement, hPosition⟩ :=
          Form.placement?_eq_some h
        refine ⟨form.beforeDisplacement address, form.trailing, ?_, hPosition⟩
        rw [Survey.chunks_of_formedAs hFormed hEmit, hDisplacement,
          Form.bytes_eq_of_fixup hOther hFixup]
  | refused hStep =>
      rw [placement?, Instruction.placement?_of_refused hStep] at h
      cases h

/-- The displacement stands in what the step adds, with all its four bytes, and
so in the code that there is after it. -/
theorem bounds_of_placement {survey : Survey} (hDescribes : survey.Describes a)
    (hApply : action.apply a = .ok after) (h : action.placement? a = some placement) :
    a.position ≤ placement.position ∧ placement.position + 4 ≤ after.position := by
  obtain ⟨leading, trailing, hChunks, hPosition⟩ := chunks_of_placement hApply h
  have hAfter := hDescribes.position_apply hApply
  rw [hChunks] at hAfter
  simp only [Survey.width, Chunk.length, List.length_append, LittleEndian.length_word] at hAfter
  omega

/-- A displacement of a run was left to its fixup by a step of the run, the one
that wrote the address. -/
theorem visits_of_mem_placements (hRun : applyAll actions a = .ok final)
    (h : placement ∈ (Ledger.ofActions actions a).placements) :
    ∃ before action after, Visits a actions before action after ∧
      action.placement? before = some placement := by
  induction actions generalizing a with
  | nil => cases h
  | cons action rest ih =>
      obtain ⟨next, hStep, hRest⟩ := (applyAll_cons_eq_ok_iff _ _ _ _).mp hRun
      rw [Ledger.ofActions, hStep] at h
      rcases List.mem_append.mp h with hHere | hLater
      · exact ⟨a, action, next, .head rest hStep, Option.mem_toList.mp hHere⟩
      · obtain ⟨before, other, after, hVisits, hPlacement⟩ := ih hRest hLater
        exact ⟨before, other, after, hVisits.cons hStep, hPlacement⟩

/-- Whatever a step of a run leaves to a fixup is among the placements of the
run, also if a later step moves the fixup away from it. -/
theorem mem_placements_of_visits (hVisits : Visits a actions after action final)
    (h : action.placement? after = some placement) :
    placement ∈ (Ledger.ofActions actions a).placements := by
  obtain ⟨earlier, later, rfl, hEarlier, hApply⟩ := hVisits
  induction earlier generalizing a with
  | nil =>
      cases hEarlier
      rw [List.nil_append, Ledger.ofActions, hApply]
      exact List.mem_append_left _ (Option.mem_toList.mpr h)
  | cons first rest ih =>
      obtain ⟨next, hStep, hRest⟩ := (applyAll_cons_eq_ok_iff _ _ _ _).mp hEarlier
      rw [List.cons_append, Ledger.ofActions, hStep]
      exact List.mem_append_right _ (ih hRest)

/-- Displacements stand in the order in which they were written, and none
overlaps another. Neither does any of them lie in the code there was before the
run. -/
theorem pairwise_placements {survey : Survey} (hDescribes : survey.Describes a)
    (hRun : applyAll actions a = .ok final) :
    (Ledger.ofActions actions a).placements.Pairwise Placement.Precedes ∧
      ∀ placement ∈ (Ledger.ofActions actions a).placements,
        a.position ≤ placement.position := by
  induction actions generalizing survey a with
  | nil => exact ⟨.nil, fun _ h => by cases h⟩
  | cons action rest ih =>
      obtain ⟨next, hStep, hRest⟩ := (applyAll_cons_eq_ok_iff _ _ _ _).mp hRun
      obtain ⟨hOrder, hLater⟩ := ih (hDescribes.apply hStep) hRest
      have hForward : a.position ≤ next.position := by
        rw [hDescribes.position_apply hStep]
        exact Nat.le_add_right _ _
      rw [Ledger.ofActions, hStep]
      simp only [Ledger.placements_append, Ledger.ofAction, List.mem_append]
      cases hHere : action.placement? a with
      | none =>
          refine ⟨by simpa using hOrder, ?_⟩
          rintro placement (hNever | hMem)
          · cases hNever
          · exact Nat.le_trans hForward (hLater placement hMem)
      | some first =>
          obtain ⟨hStart, hStop⟩ := bounds_of_placement hDescribes hStep hHere
          refine ⟨?_, ?_⟩
          · rw [Option.toList_some, List.singleton_append, List.pairwise_cons]
            exact ⟨fun other hOther => Nat.le_trans hStop (hLater other hOther), hOrder⟩
          · rintro placement (hFirst | hMem)
            · obtain rfl := List.mem_singleton.mp hFirst
              exact hStart
            · exact Nat.le_trans hForward (hLater placement hMem)

/-- The four bytes of a displacement stay what they were written as. Binding a
label does not touch them, as its gaps are elsewhere. -/
theorem drop_of_placement (hRun : applyAll actions .empty = .ok final)
    (h : placement ∈ (Ledger.ofActions actions .empty).placements) :
    final.bytes.drop placement.position =
      LittleEndian.word placement.displacement ++ final.bytes.drop (placement.position + 4) := by
  obtain ⟨before, action, after, hVisits, hPlacement⟩ := visits_of_mem_placements hRun h
  have hApply : action.apply before = .ok after := by
    obtain ⟨_, _, -, -, hStep⟩ := hVisits
    exact hStep
  obtain ⟨leading, trailing, hChunks, hPosition⟩ := chunks_of_placement hApply hPlacement
  have hDrop := Survey.drop_of_visits hRun hVisits
  rw [hChunks, Survey.write, Survey.write, List.append_nil, List.append_assoc, List.append_assoc]
    at hDrop
  have hWord : final.bytes.drop placement.position =
      LittleEndian.word placement.displacement ++
        (trailing ++ final.bytes.drop after.position) := by
    rw [hPosition, ← List.drop_drop, hDrop, List.drop_left]
  rw [← List.drop_drop, hWord, List.drop_left' (LittleEndian.length_word _)]

/-- Placements at one position are one placement. The place of a fixup
therefore tells which address it completes. -/
theorem eq_of_position_eq (hRun : applyAll actions .empty = .ok final) {first second : Placement}
    (hFirst : first ∈ (Ledger.ofActions actions .empty).placements)
    (hSecond : second ∈ (Ledger.ofActions actions .empty).placements)
    (h : first.position = second.position) : first = second := by
  have hOrder := (pairwise_placements Survey.describes_empty hRun).1
  rw [List.pairwise_iff_getElem] at hOrder
  obtain ⟨i, hi, rfl⟩ := List.getElem_of_mem hFirst
  obtain ⟨j, hj, rfl⟩ := List.getElem_of_mem hSecond
  rcases Nat.lt_trichotomy i j with hBefore | rfl | hAfter
  · have hApart : _ + 4 ≤ _ := hOrder i j hi hj hBefore
    omega
  · rfl
  · have hApart : _ + 4 ≤ _ := hOrder j i hj hi hAfter
    omega

/-- The fixups of finished code against the addresses that the steps of a run
wrote. -/
structure Linked (actions : List Action) (code : AssembledCode) : Prop where
  /-- There is a fixup for every symbol that a step asked for and was not
  refused. -/
  symbols : code.fixups.map Fixup.symbol = (Ledger.ofActions actions .empty).symbols
  /-- Every step counts that writes an address with a fixup. -/
  complete : ∀ before action after placement, Visits .empty actions before action after →
    action.placement? before = some placement →
      placement ∈ (Ledger.ofActions actions .empty).placements
  /-- The four bytes are still the displacement that was written. -/
  field : ∀ placement ∈ (Ledger.ofActions actions .empty).placements,
    code.bytes.drop placement.position =
      LittleEndian.word placement.displacement ++ code.bytes.drop (placement.position + 4)
  /-- A displacement after which no other is written for its fixup is the place
  of that fixup. -/
  last : ∀ earlier placement later,
    (Ledger.ofActions actions .empty).placements = earlier ++ placement :: later →
      (∀ other ∈ later, other.ref ≠ placement.ref) →
        ∃ symbol,
          (Ledger.ofActions actions .empty).symbols[placement.ref.number.toNat]? = some symbol ∧
          code.fixups[placement.ref.number.toNat]? =
            some ⟨.signed32, symbol, some placement.position⟩
  /-- A displacement after which another is written for its fixup is the place
  of none. -/
  replaced : ∀ earlier placement later,
    (Ledger.ofActions actions .empty).placements = earlier ++ placement :: later →
      (∃ other ∈ later, other.ref = placement.ref) →
        ∀ fixup ∈ code.fixups, fixup.position ≠ some placement.position

/-- A fixup has the place of the last displacement that was written for it, and
no other. So a displacement is known to the finished code exactly if no later
step writes an address with the same fixup. -/
theorem linked_of_finish {code : AssembledCode} (hRun : applyAll actions .empty = .ok a)
    (hFinish : a.finish = .ok code) (hRoom : a.fixups.length ≤ 4294967296) :
    Linked actions code := by
  have hLedger := Ledger.describes_ofActions hRun hRoom
  obtain ⟨-, -, rfl⟩ := (Assembler.finish_eq_ok_iff _ _).mp hFinish
  refine ⟨hLedger.map_symbol_fixups, ?_, fun placement hMem => drop_of_placement hRun hMem, ?_, ?_⟩
  · intro before action after placement hVisits hPlacement
    exact mem_placements_of_visits hVisits hPlacement
  · intro earlier placement later hSplit hLast
    have hKnown := hLedger.known placement (by rw [hSplit]; simp)
    refine ⟨_, List.getElem?_eq_getElem hKnown, ?_⟩
    rw [hLedger.fixups, Ledger.getElem?_fixups, List.getElem?_eq_getElem hKnown, hSplit,
      Placement.last?_of_last hLast]
    rfl
  · intro earlier placement later hSplit hReplaced fixup hFixup hPosition
    have hMem : placement ∈ (Ledger.ofActions actions .empty).placements := by
      rw [hSplit]
      simp
    rw [hLedger.fixups] at hFixup
    obtain ⟨index, hIndex⟩ := List.mem_iff_getElem?.mp hFixup
    rw [Ledger.getElem?_fixups] at hIndex
    obtain ⟨symbol, -, rfl⟩ := Option.map_eq_some_iff.mp hIndex
    -- A fixup at this position would be the one of the placement, whose place is further on.
    obtain ⟨found, hFound, rfl, hPlace⟩ := Placement.mem_of_last?_eq_some hPosition
    obtain rfl := eq_of_position_eq hRun hFound hMem hPlace
    obtain ⟨next, hNext, hLast⟩ := Placement.last?_of_replaced hReplaced
    have hBehind : found.position + 4 ≤ next.position := by
      have hOrder := (pairwise_placements Survey.describes_empty hRun).1
      rw [hSplit, List.pairwise_append, List.pairwise_cons] at hOrder
      exact hOrder.2.1.1 next hNext
    rw [hSplit] at hPosition
    have hSamePlace : found.position = next.position :=
      Option.some.inj (hPosition.symm.trans hLast)
    omega

/-- An address is written twice, with a load of another symbol between and a
refused copy behind. -/
theorem linked_of_finish_twice :
    let f : Function := .empty "f" .initial
    let symbol (name : String) : MemoryOperand :=
      .ofParts .i32 none none (some (.relocatable ⟨name, 0⟩)) .one
    let g : Function := ⟨"g", .initial, #[⟨"d", .i32, some (.general ⟨0, by decide⟩), 0, false⟩]⟩
    let load : Instruction := .mov .i32 (.var ⟨0⟩) (.memory (symbol "h"))
    let copy : Instruction := .mov .i32 (.memory (symbol "h")) (.memory (symbol "k"))
    let address : Address := .absolute 0 (some ⟨0⟩)
    let actions : List Action := [.translate f (symbol "g"), .emitAddress 0 address,
      .encode g load, .emitAddress 1 address, .encode f copy]
    let bytes : List UInt8 := [0x04, 0x25, 0, 0, 0, 0, 0x8B, 0x04, 0x25, 0, 0, 0, 0,
      0x0C, 0x25, 0, 0, 0, 0]
    let fixups : List Fixup := [⟨.signed32, "g", some 15⟩, ⟨.signed32, "h", some 9⟩]
    applyAll actions .empty = .ok ⟨bytes, fixups, []⟩ ∧
      Assembler.finish ⟨bytes, fixups, []⟩ = .ok ⟨bytes, fixups⟩ ∧
      fixups.length ≤ 4294967296 ∧ Linked actions ⟨bytes, fixups⟩ := by
  intro f symbol g load copy address actions bytes fixups
  have hRun : applyAll actions .empty = .ok ⟨bytes, fixups, []⟩ := by
    dsimp only [f, symbol, g, load, copy, address, actions, bytes, fixups]
    rfl
  have hFinish : Assembler.finish ⟨bytes, fixups, []⟩ = .ok ⟨bytes, fixups⟩ := by rfl
  have hRoom : fixups.length ≤ 4294967296 := by decide
  exact ⟨hRun, hFinish, hRoom, linked_of_finish hRun hFinish hRoom⟩

/-- Not every displacement that was written for a fixup is the place of one:
when an address is written a second time, the first displacement is known to
nobody. -/
theorem place_of_address_written_twice :
    let f : Function := .empty "f" .initial
    let operand : MemoryOperand := .ofParts .i32 none none (some (.relocatable ⟨"g", 0⟩)) .one
    let address : Address := .absolute 0 (some ⟨0⟩)
    let actions : List Action :=
      [.translate f operand, .emitAddress 0 address, .emitAddress 0 address]
    let bytes : List UInt8 := [0x04, 0x25, 0, 0, 0, 0, 0x04, 0x25, 0, 0, 0, 0]
    let fixups : List Fixup := [⟨.signed32, "g", some 8⟩]
    operand.toAddress f .empty = .done address ⟨[], [⟨.signed32, "g", none⟩], []⟩ ∧
      applyAll actions .empty = .ok ⟨bytes, fixups, []⟩ ∧
      Assembler.finish ⟨bytes, fixups, []⟩ = .ok ⟨bytes, fixups⟩ ∧
      (Ledger.ofActions actions .empty).placements = [⟨⟨0⟩, 0, 2⟩, ⟨⟨0⟩, 0, 8⟩] ∧
      ¬ ∀ placement ∈ (Ledger.ofActions actions .empty).placements,
        ∃ fixup ∈ fixups, fixup.symbol = "g" ∧ fixup.position = some placement.position := by
  intro f operand address actions bytes fixups
  have hPlacements :
      (Ledger.ofActions actions .empty).placements = [⟨⟨0⟩, 0, 2⟩, ⟨⟨0⟩, 0, 8⟩] := by rfl
  have hRun : applyAll actions .empty = .ok ⟨bytes, fixups, []⟩ := by
    dsimp only [f, operand, address, actions, bytes, fixups]
    rfl
  refine ⟨by rfl, hRun, by rfl, hPlacements, ?_⟩
  intro hAll
  rw [hPlacements] at hAll
  obtain ⟨fixup, hFixup, -, hPosition⟩ := hAll ⟨⟨0⟩, 0, 2⟩ (.head _)
  obtain rfl := List.mem_singleton.mp hFixup
  cases hPosition

end Action

end Amd64
