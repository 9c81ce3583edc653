import Amd64.Proofs.Action.Ledger
import Amd64.Proofs.Action.Refused

/-!
How a code ends is decided by the steps that led to it. The searches for an
unbound label and for an unplaced fixup see two tables only.
`Action.finish_eq_iff_endsIn` says which steps make them find what they find,
in whatever order the steps come and whichever of them are refused.
-/

namespace Amd64

/-- No step wrote an address for the fixup with this number. -/
def Ledger.Unplaced (ledger : Ledger) (index : Nat) : Prop :=
  ∀ placement ∈ ledger.placements, placement.ref.number.toNat ≠ index

namespace Action

/-- The label whose distance a step writes. A jump is never refused. -/
def usedLabel? : Action → Option Label
  | emitDistance label => some label
  | emitJump _ label => some label
  | encode _ (.jcc _ label) => some label
  | _ => none

/-- Some step writes the distance to the label, and none binds it. -/
structure LeavesOpen (actions : List Action) (label : Label) : Prop where
  used : ∃ action ∈ actions, action.usedLabel? = some label
  unbound : bind label ∉ actions

/-- How a code ends, in terms of the steps that led to it. -/
inductive EndsIn (actions : List Action) (a : Assembler) :
    Except Refusal AssembledCode → Prop where
  /-- Of the labels that are left open it is the one with the smallest
  number. -/
  | unboundLabel {label : Label} (left : LeavesOpen actions label)
      (least : ∀ other, LeavesOpen actions other → label.number ≤ other.number) :
      EndsIn actions a (.error (.unboundLabel label))
  /-- Of the symbols without an address it is the one that a step asked for
  first. -/
  | unplacedFixup {symbol : String} {index : Nat} (closed : ∀ label, ¬ LeavesOpen actions label)
      (asked : (Ledger.ofActions actions .empty).symbols[index]? = some symbol)
      (unplaced : (Ledger.ofActions actions .empty).Unplaced index)
      (first : ∀ earlier < index, ¬ (Ledger.ofActions actions .empty).Unplaced earlier) :
      EndsIn actions a (.error (.unplacedFixup symbol))
  | finished (closed : ∀ label, ¬ LeavesOpen actions label)
      (placed : ∀ index < (Ledger.ofActions actions .empty).symbols.length,
        ¬ (Ledger.ofActions actions .empty).Unplaced index) :
      EndsIn actions a (.ok ⟨a.bytes, a.fixups⟩)

/-- A step leaves a gap for a label exactly if it uses the label: in a bare
distance or in a jump, as a step of its own or as an instruction. -/
theorem gap_mem_chunks_iff (action : Action) (a : Assembler) (label : Label) :
    .gap label ∈ action.chunks a ↔ action.usedLabel? = some label := by
  cases action with
  | emit | emitRex | emitAddress | newLabel | bind | createFixup | translate =>
      simp [chunks, usedLabel?]
  | emitDistance | emitJump => simp [chunks, jumpChunks, usedLabel?, eq_comm]
  | encode f instruction =>
      cases instruction with
      | jcc => simp [chunks, jumpChunks, usedLabel?, eq_comm]
      | mov | lea | setcc | cmpps => simp [chunks, usedLabel?]

end Action

namespace Survey

variable {actions : List Action} {a final : Assembler}

/-- The gaps of a run are for the labels that its steps use. Which of them are
bound later is of no importance here. -/
theorem gap_mem_ofActions_iff (hRun : Action.applyAll actions a = .ok final) (label : Label) :
    .gap label ∈ (ofActions actions a).chunks ↔
      ∃ action ∈ actions, action.usedLabel? = some label := by
  induction actions generalizing a with
  | nil => simp [ofActions]
  | cons action rest ih =>
      obtain ⟨after, hStep, hRest⟩ := (Action.applyAll_cons_eq_ok_iff _ _ _ _).mp hRun
      rw [ofActions, hStep]
      simp only [List.mem_append, Action.gap_mem_chunks_iff, ih hRest, List.mem_cons,
        exists_eq_or_imp]

/-- A run knows no position of a label exactly if no step binds it, whether the
label was ever handed out or not. -/
theorem lookup_targets_eq_none_iff (hRun : Action.applyAll actions .empty = .ok final)
    (label : Label) :
    (ofActions actions .empty).targets.lookup label = none ↔ .bind label ∉ actions := by
  rw [Option.eq_none_iff_forall_ne_some]
  constructor
  · intro hNone hBind
    obtain ⟨before, after, hVisits⟩ := Action.exists_visits_of_mem hRun hBind
    exact hNone _ ((lookup_targets_eq_some_iff hRun label _).mpr ⟨before, after, hVisits, rfl⟩)
  · intro hNever target hTarget
    obtain ⟨before, after, ⟨earlier, later, rfl, -⟩, -⟩ :=
      (lookup_targets_eq_some_iff hRun label target).mp hTarget
    exact hNever (by simp)

end Survey

namespace Ledger.Describes

variable {ledger : Ledger} {a : Assembler}

/-- A fixup has no position exactly if no step wrote an address for it. It does
not matter whether the fixup was requested by an instruction. -/
theorem position_eq_none_iff (h : ledger.Describes a) {index : Nat} {fixup : Fixup}
    (hFixup : a.fixups[index]? = some fixup) :
    fixup.position = none ↔ ledger.Unplaced index := by
  rw [h.fixups, getElem?_fixups] at hFixup
  obtain ⟨symbol, -, rfl⟩ := Option.map_eq_some_iff.mp hFixup
  exact Placement.last?_eq_none_iff

/-- The search finds the symbol that was asked for first without an address
being written. Symbols asked for later do not matter. -/
theorem firstUnplaced_eq_some_iff (h : ledger.Describes a) (symbol : String) :
    (∃ fixup, a.firstUnplaced = some fixup ∧ fixup.symbol = symbol) ↔
      ∃ index, ledger.symbols[index]? = some symbol ∧ ledger.Unplaced index ∧
        ∀ earlier < index, ¬ ledger.Unplaced earlier := by
  have hSymbol (index : Nat) :
      a.fixups[index]?.map Fixup.symbol = ledger.symbols[index]? := by
    rw [← h.map_symbol_fixups, List.getElem?_map]
  constructor
  · rintro ⟨fixup, hFound, rfl⟩
    obtain ⟨hNone, index, hBound, rfl, hFirst⟩ := List.find?_eq_some_iff_getElem.mp hFound
    have hHere := List.getElem?_eq_getElem hBound
    refine ⟨index, by rw [← hSymbol, hHere]; rfl, ?_, ?_⟩
    · exact (h.position_eq_none_iff hHere).mp (Option.isNone_iff_eq_none.mp hNone)
    · intro earlier hEarlier hUnplaced
      have hBefore := List.getElem?_eq_getElem (Nat.lt_trans hEarlier hBound)
      have hPlaced := hFirst earlier hEarlier
      rw [(h.position_eq_none_iff hBefore).mpr hUnplaced] at hPlaced
      cases hPlaced
  · rintro ⟨index, hAsked, hUnplaced, hFirst⟩
    rw [← hSymbol] at hAsked
    obtain ⟨fixup, hHere, rfl⟩ := Option.map_eq_some_iff.mp hAsked
    obtain ⟨hBound, hFixup⟩ := List.getElem?_eq_some_iff.mp hHere
    refine ⟨fixup, List.find?_eq_some_iff_getElem.mpr ⟨?_, index, hBound, hFixup, ?_⟩, rfl⟩
    · rw [(h.position_eq_none_iff hHere).mpr hUnplaced]
      rfl
    · intro earlier hEarlier
      have hBefore := List.getElem?_eq_getElem (Nat.lt_trans hEarlier hBound)
      have hPlaced := mt (h.position_eq_none_iff hBefore).mp (hFirst earlier hEarlier)
      simpa [Option.isSome_iff_ne_none] using hPlaced

/-- The search finds nothing exactly if an address was written for every fixup
there is. -/
theorem firstUnplaced_eq_none_iff (h : ledger.Describes a) :
    a.firstUnplaced = none ↔ ∀ index < ledger.symbols.length, ¬ ledger.Unplaced index := by
  rw [← h.length_fixups, Assembler.firstUnplaced, List.find?_eq_none]
  constructor
  · intro hPlaced index hIndex hUnplaced
    have hNone := (h.position_eq_none_iff (List.getElem?_eq_getElem hIndex)).mpr hUnplaced
    exact hPlaced _ (List.getElem_mem hIndex) (by rw [hNone]; rfl)
  · intro hPlaced fixup hFixup hNone
    obtain ⟨index, hIndex⟩ := List.mem_iff_getElem?.mp hFixup
    refine hPlaced index (List.getElem?_eq_some_iff.mp hIndex).1 ?_
    exact (h.position_eq_none_iff hIndex).mp (Option.isNone_iff_eq_none.mp hNone)

end Ledger.Describes

namespace Action

variable {actions : List Action} {a : Assembler}

/-- The labels that steps leave open are those that something waits for. A
label that is neither bound nor used is not one of them. -/
theorem leavesOpen_iff (hRun : applyAll actions .empty = .ok a) (label : Label) :
    LeavesOpen actions label ↔ a.Waits label := by
  have hState := (Survey.describes_ofActions hRun).labels label
  have hUsed := Survey.gap_mem_ofActions_iff hRun label
  have hUnbound := Survey.lookup_targets_eq_none_iff hRun label
  rw [Assembler.Waits, hState]
  simp only [Survey.state_eq_pending_iff]
  constructor
  · rintro ⟨hSome, hNever⟩
    have hGaps := (Survey.gaps_ne_nil_iff label 0 _).mpr (hUsed.mpr hSome)
    obtain ⟨field, rest, hFields⟩ := List.exists_cons_of_ne_nil hGaps
    exact ⟨field, rest, hUnbound.mpr hNever, hFields⟩
  · rintro ⟨field, rest, hLookup, hFields⟩
    have hGaps : Survey.gaps label 0 (Survey.ofActions actions .empty).chunks ≠ [] := by
      rw [hFields]
      exact List.cons_ne_nil _ _
    exact ⟨hUsed.mp ((Survey.gaps_ne_nil_iff _ _ _).mp hGaps), hUnbound.mp hLookup⟩

/-- The end of a code is read off the steps that led to it, as long as labels
and fixups can be numbered. -/
theorem finish_eq_of_run (hRun : applyAll actions .empty = .ok a)
    (hLabels : a.labels.length ≤ 4294967296) (hRoom : a.fixups.length ≤ 4294967296)
    (result : Except Refusal AssembledCode) :
    a.finish = result ↔ EndsIn actions a result := by
  have hLedger := Ledger.describes_ofActions hRun hRoom
  have hOpen : a.firstUnbound = none ↔ ∀ label, ¬ LeavesOpen actions label := by
    simp only [Assembler.firstUnbound_eq_none_iff hLabels, leavesOpen_iff hRun]
  have hUnbound (label : Label) : a.firstUnbound = some label ↔ LeavesOpen actions label ∧
      ∀ other, LeavesOpen actions other → label.number ≤ other.number := by
    simp only [Assembler.firstUnbound_eq_some_iff hLabels, leavesOpen_iff hRun]
  constructor
  · rintro rfl
    cases hLabel : a.firstUnbound with
    | some label =>
        obtain ⟨hLeft, hLeast⟩ := (hUnbound label).mp hLabel
        rw [(Assembler.finish_eq_unboundLabel_iff _ _).mpr hLabel]
        exact .unboundLabel hLeft hLeast
    | none =>
        have hClosed := hOpen.mp hLabel
        cases hFixup : a.firstUnplaced with
        | some fixup =>
            rw [(Assembler.finish_eq_unplacedFixup_iff _ _).mpr ⟨hLabel, fixup, hFixup, rfl⟩]
            obtain ⟨index, hAsked, hUnplaced, hFirst⟩ :=
              (hLedger.firstUnplaced_eq_some_iff _).mp ⟨fixup, hFixup, rfl⟩
            exact .unplacedFixup hClosed hAsked hUnplaced hFirst
        | none =>
            rw [(Assembler.finish_eq_ok_iff _ _).mpr ⟨hLabel, hFixup, rfl⟩]
            exact .finished hClosed (hLedger.firstUnplaced_eq_none_iff.mp hFixup)
  · intro hEnds
    cases hEnds with
    | unboundLabel hLeft hLeast =>
        exact (Assembler.finish_eq_unboundLabel_iff _ _).mpr ((hUnbound _).mpr ⟨hLeft, hLeast⟩)
    | unplacedFixup hClosed hAsked hUnplaced hFirst =>
        exact (Assembler.finish_eq_unplacedFixup_iff _ _).mpr ⟨hOpen.mpr hClosed,
          (hLedger.firstUnplaced_eq_some_iff _).mpr ⟨_, hAsked, hUnplaced, hFirst⟩⟩
    | finished hClosed hPlaced =>
        exact (Assembler.finish_eq_ok_iff _ _).mpr ⟨hOpen.mpr hClosed,
          hLedger.firstUnplaced_eq_none_iff.mpr hPlaced, rfl⟩

/-- The end of a code is decided by the steps that led to it, and by those of
them that were not refused alone. -/
theorem finish_eq_iff_endsIn (hRun : applyAll actions .empty = .ok a)
    (hLabels : a.labels.length ≤ 4294967296) (hRoom : a.fixups.length ≤ 4294967296) :
    (∀ result, a.finish = result ↔ EndsIn actions a result) ∧
      ∀ result, a.finish = result ↔ EndsIn (withoutRefused actions .empty) a result := by
  have hKept : applyAll (withoutRefused actions .empty) .empty = .ok a :=
    (history_withoutRefused actions .empty).1.trans hRun
  exact ⟨finish_eq_of_run hRun hLabels hRoom, finish_eq_of_run hKept hLabels hRoom⟩

/-- One label is bound after its use and one is never used, a copy between two
symbols is refused, and the address of a third symbol is not written. -/
theorem finish_eq_iff_endsIn_unplaced :
    let f : Function := .empty "f" .initial
    let symbol (name : String) : MemoryOperand :=
      .ofParts .i32 none none (some (.relocatable ⟨name, 0⟩)) .one
    let copy : Instruction := .mov .i32 (.memory (symbol "h")) (.memory (symbol "k"))
    let actions : List Action := [.newLabel, .newLabel, .emitDistance ⟨1⟩, .encode f copy,
      .translate f (symbol "g"), .bind ⟨1⟩]
    let kept : List Action := [.newLabel, .newLabel, .emitDistance ⟨1⟩,
      .translate f (symbol "g"), .bind ⟨1⟩]
    let a : Assembler :=
      ⟨[0, 0, 0, 0], [⟨.signed32, "g", none⟩], [.pending [], .bound 4]⟩
    applyAll actions .empty = .ok a ∧ a.labels.length ≤ 4294967296 ∧
      a.fixups.length ≤ 4294967296 ∧ a.finish = .error (.unplacedFixup "g") ∧
      EndsIn actions a (.error (.unplacedFixup "g")) ∧
      withoutRefused actions .empty = kept ∧ EndsIn kept a (.error (.unplacedFixup "g")) := by
  intro f symbol copy actions kept a
  have hRun : applyAll actions .empty = .ok a := by
    dsimp only [f, symbol, copy, actions, a]
    rfl
  have hKept : withoutRefused actions .empty = kept := by
    dsimp only [f, symbol, copy, actions, kept]
    rfl
  have hLabels : a.labels.length ≤ 4294967296 := by decide
  have hRoom : a.fixups.length ≤ 4294967296 := by decide
  have hFinish : a.finish = .error (.unplacedFixup "g") := by rfl
  obtain ⟨hEnds, hEndsKept⟩ := finish_eq_iff_endsIn hRun hLabels hRoom
  refine ⟨hRun, hLabels, hRoom, hFinish, (hEnds _).mp hFinish, hKept, ?_⟩
  rw [← hKept]
  exact (hEndsKept _).mp hFinish

end Action

end Amd64
