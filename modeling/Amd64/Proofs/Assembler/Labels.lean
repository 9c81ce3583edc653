import Amd64.Assembler.Basic

/-!
Labels on the way to finished code: when a distance is known at once and when
it is left open, what binding a label patches, and what finished code says
about the labels that were used.
-/

namespace Amd64.Assembler

/-- What is known of a label. Nothing is bound to a label that does not exist,
and nothing waits for it. -/
def labelState (a : Assembler) (label : Label) : LabelState :=
  (a.labels[label.number.toNat]?).getD (.pending [])

theorem labelState_eq_of_getElem? {a : Assembler} {label : Label} {state : LabelState}
    (h : a.labels[label.number.toNat]? = some state) : a.labelState label = state := by
  rw [labelState, h, Option.getD_some]

/-- A new label is not bound and nothing waits for it, as was so before it
existed. So creating a label changes the state of none. -/
theorem labelState_newLabel (a : Assembler) (label : Label) :
    a.newLabel.2.labelState label = a.labelState label := by
  simp only [labelState, newLabel, List.getElem?_append]
  split
  · rfl
  · rw [List.getElem?_eq_none (by omega : a.labels.length ≤ label.number.toNat)]
    cases label.number.toNat - a.labels.length <;> rfl

/-- Setting a label that exists is seen at once. -/
theorem labelState_setLabel_self {a : Assembler} {label : Label} {old : LabelState}
    (h : a.labels[label.number.toNat]? = some old) (state : LabelState) :
    (a.setLabel label state).labelState label = state := by
  have hBound := (List.getElem?_eq_some_iff.mp h).1
  simp [labelState, setLabel, hBound]

/-- No other label is touched. Two labels are different exactly if their
numbers are. -/
theorem labelState_setLabel_of_ne (a : Assembler) {label other : Label} (h : other ≠ label)
    (state : LabelState) : (a.setLabel label state).labelState other = a.labelState other := by
  have hNumber : label.number.toNat ≠ other.number.toNat := by
    intro hSame
    have hEq := UInt32.toNat_inj.mp hSame
    apply h
    cases label
    cases other
    exact congrArg _ hEq.symm
  simp [labelState, setLabel, List.getElem?_set_ne hNumber]

/-- The code with four zero bytes that wait for a label. -/
def withField (a : Assembler) (label : Label) (fields : List Nat) : Assembler :=
  (a.setLabel label (.pending (fields ++ [a.position]))).emit (LittleEndian.word 0)

/-- The distance to a bound label is written at once, and to any other it is
left open. In both cases four bytes are added, and the label has to exist. -/
theorem emitDistance_eq_ok_iff (a after : Assembler) (label : Label) :
    a.emitDistance label = .ok after ↔
      (∃ target, a.labels[label.number.toNat]? = some (.bound target) ∧
        after = a.emit (LittleEndian.word (distance target a.position))) ∨
      ∃ fields, a.labels[label.number.toNat]? = some (.pending fields) ∧
        after = a.withField label fields := by
  unfold emitDistance Assembler.label
  cases a.labels[label.number.toNat]? with
  | none => simp
  | some state => cases state <;> simp [withField, eq_comm]

/-- The code with a word over four bytes of it, for each of the fields. -/
def patchWords (a : Assembler) (word : Nat → Int32) (fields : List Nat) : Assembler :=
  fields.foldl (fun code field => code.patch field (LittleEndian.word (word field))) a

section PatchWords

variable {word : Nat → Int32} {fields : List Nat}

theorem patchWords_cons (a : Assembler) (field : Nat) :
    a.patchWords word (field :: fields) =
      (a.patch field (LittleEndian.word (word field))).patchWords word fields := rfl

theorem labels_patchWords (a : Assembler) : (a.patchWords word fields).labels = a.labels := by
  induction fields generalizing a with
  | nil => rfl
  | cons field rest ih => exact ih (a.patch field (LittleEndian.word (word field)))

theorem fixups_patchWords (a : Assembler) : (a.patchWords word fields).fixups = a.fixups := by
  induction fields generalizing a with
  | nil => rfl
  | cons field rest ih => exact ih (a.patch field (LittleEndian.word (word field)))

end PatchWords

/-- One field after the other, in the order in which they were left open. The
first patch that has no room ends it. -/
theorem patchDistances_cons (a : Assembler) (target field : Nat) (rest : List Nat) :
    a.patchDistances target (field :: rest) =
      match a.patchInside field (LittleEndian.word (distance target field)) with
      | .error fault => .error fault
      | .ok patched => patched.patchDistances target rest := by
  rw [patchDistances, List.foldlM_cons]
  cases a.patchInside field (LittleEndian.word (distance target field)) <;> rfl

/-- Patching runs into no fault exactly if all four bytes of every field are
there already. The induction is on the fields: the first patch does not move
the end, so that the bound for the fields that are left is still the old
one. -/
theorem patchDistances_eq_ok_iff (a after : Assembler) (target : Nat) (fields : List Nat) :
    a.patchDistances target fields = .ok after ↔
      (∀ field ∈ fields, field + 4 ≤ a.position) ∧
        after = a.patchWords (distance target) fields := by
  induction fields generalizing a with
  | nil =>
      show Except.ok a = .ok after ↔ _ ∧ after = a
      simp [eq_comm]
  | cons field rest ih =>
      rw [List.forall_mem_cons, patchWords_cons, patchDistances_cons, patchInside,
        LittleEndian.length_word]
      by_cases hHere : field + 4 ≤ a.position
      · have hEnd := a.position_patch field (LittleEndian.word (distance target field)) hHere
        have hRest := ih (a.patch field (LittleEndian.word (distance target field)))
        rw [hEnd] at hRest
        simpa [hHere] using hRest
      · simp [hHere]

/-- The code with a position for a label and with every field patched that
waited for it. -/
def withTarget (a : Assembler) (label : Label) (fields : List Nat) : Assembler :=
  (a.setLabel label (.bound a.position)).patchWords (distance a.position) fields

/-- Only a label that exists and is not bound yet is bound, and only if the
fields that wait for it lie inside the code. Everything else is a fault. -/
theorem bind_eq_ok_iff (a after : Assembler) (label : Label) :
    a.bind label = .ok after ↔
      ∃ fields, a.labels[label.number.toNat]? = some (.pending fields) ∧
        (∀ field ∈ fields, field + 4 ≤ a.position) ∧ after = a.withTarget label fields := by
  unfold Assembler.bind Assembler.label
  cases a.labels[label.number.toNat]? with
  | none => simp
  | some state =>
      cases state with
      | bound target => simp
      | pending fields =>
          have hPatched := patchDistances_eq_ok_iff (a.setLabel label (.bound a.position)) after
            a.position fields
          simpa [withTarget] using hPatched

/-- Labels and fixups have nothing to do with each other: the distance to a
label never goes through the linker. -/
theorem fixups_of_emitDistance {a after : Assembler} {label : Label}
    (h : a.emitDistance label = .ok after) : after.fixups = a.fixups := by
  rcases (emitDistance_eq_ok_iff _ _ _).mp h with ⟨target, -, rfl⟩ | ⟨fields, -, rfl⟩ <;> rfl

theorem fixups_of_emitJump {a after : Assembler} {condition : Condition} {target : Label}
    (h : a.emitJump condition target = .ok after) : after.fixups = a.fixups := by
  have hFixups := fixups_of_emitDistance (a := a.emit _) h
  exact hFixups

theorem fixups_of_bind {a after : Assembler} {label : Label} (h : a.bind label = .ok after) :
    after.fixups = a.fixups := by
  obtain ⟨fields, -, -, rfl⟩ := (bind_eq_ok_iff _ _ _).mp h
  exact fixups_patchWords _

/-- The distance that a jump gets when it is written: none yet, if its target
is not bound. -/
def jumpDistance (a : Assembler) (target : Label) : Int32 :=
  match a.labels[target.number.toNat]? with
  | some (.bound position) => distance position (a.position + 2)
  | _ => 0

/-- A jump is two bytes of opcode and the four bytes of a distance. The
distance is zero as long as the target is not bound. -/
theorem bytes_of_emitJump {a after : Assembler} {condition : Condition} {target : Label}
    (h : a.emitJump condition target = .ok after) :
    after.bytes = a.bytes ++ ([0x0F, UInt8.ofNat (0x80 + condition.code)] ++
      LittleEndian.word (a.jumpDistance target)) := by
  have hLabels : (a.emit [0x0F, UInt8.ofNat (0x80 + condition.code)]).labels = a.labels := rfl
  rcases (emitDistance_eq_ok_iff _ _ _).mp h with ⟨position, hBound, rfl⟩ | ⟨fields, hOpen, rfl⟩
  · rw [hLabels] at hBound
    simp [jumpDistance, hBound, emit, Assembler.position]
  · rw [hLabels] at hOpen
    simp [jumpDistance, hOpen, withField, setLabel, emit]

/-- Code is finished if no used label is left unbound and every fixup has a
place; then nothing of it is changed any more. -/
theorem finish_eq_ok_iff (a : Assembler) (code : AssembledCode) :
    a.finish = .ok code ↔
      a.firstUnbound = none ∧ a.firstUnplaced = none ∧ code = ⟨a.bytes, a.fixups⟩ := by
  unfold finish
  cases a.firstUnbound <;> cases a.firstUnplaced <;> simp [eq_comm]

/-- Nothing waits for any label of finished code. A label that was never bound
can still be there, if nothing uses it. -/
theorem eq_nil_of_finish {a : Assembler} {code : AssembledCode} {label : Label}
    {fields : List Nat} (hFinish : a.finish = .ok code)
    (hState : a.labelState label = .pending fields) : fields = [] := by
  obtain ⟨hUnbound, -, -⟩ := (finish_eq_ok_iff _ _).mp hFinish
  rw [firstUnbound, Option.map_eq_none_iff, List.findIdx?_eq_none_iff] at hUnbound
  unfold labelState at hState
  cases hFound : a.labels[label.number.toNat]? with
  | none =>
      rw [hFound] at hState
      cases hState
      rfl
  | some state =>
      rw [hFound, Option.getD_some] at hState
      have hUsed := hUnbound state (List.mem_of_getElem? hFound)
      cases fields with
      | nil => rfl
      | cons field rest =>
          rw [hState] at hUsed
          cases hUsed

/-- The label that is reported is the first one found, and it is reported
whether fixups are without a place or not. -/
theorem finish_eq_unboundLabel_iff (a : Assembler) (label : Label) :
    a.finish = .error (.unboundLabel label) ↔ a.firstUnbound = some label := by
  unfold finish
  cases a.firstUnbound <;> cases a.firstUnplaced <;> simp

/-- Fixups are looked at only if no label is left. What is reported of the
fixup is its symbol and not its number. -/
theorem finish_eq_unplacedFixup_iff (a : Assembler) (symbol : String) :
    a.finish = .error (.unplacedFixup symbol) ↔
      a.firstUnbound = none ∧ ∃ fixup, a.firstUnplaced = some fixup ∧ fixup.symbol = symbol := by
  unfold finish
  cases a.firstUnbound <;> cases a.firstUnplaced <;> simp

/-- Some field of the code still waits for the label. -/
def Waits (a : Assembler) (label : Label) : Prop :=
  ∃ field rest, a.labelState label = .pending (field :: rest)

/-- The search for unbound labels stops at a label that something waits for.
Labels that do not exist are never found. -/
theorem waits_iff (a : Assembler) (label : Label) :
    a.Waits label ↔
      ∃ h : label.number.toNat < a.labels.length,
        (match a.labels[label.number.toNat] with
          | .pending (_ :: _) => true
          | _ => false) = true := by
  unfold Waits labelState
  by_cases hBound : label.number.toNat < a.labels.length
  · rw [List.getElem?_eq_getElem hBound, Option.getD_some, exists_prop_of_true hBound]
    cases a.labels[label.number.toNat] with
    | bound target => simp
    | pending fields => cases fields <;> simp
  · rw [List.getElem?_eq_none (Nat.le_of_not_lt hBound), Option.getD_none]
    simp [hBound]

/-- The search finds the first label that something waits for, if labels can be
numbered. Beyond that bound two labels would share a number. -/
theorem firstUnbound_eq_some_iff {a : Assembler} (hLabels : a.labels.length ≤ 4294967296)
    (label : Label) :
    a.firstUnbound = some label ↔
      a.Waits label ∧ ∀ other, a.Waits other → label.number ≤ other.number := by
  have hNumber {index : Nat} (hIndex : index < a.labels.length) :
      (UInt32.ofNat index).toNat = index :=
    UInt32.toNat_ofNat_of_lt' (show index < 4294967296 by omega)
  rw [firstUnbound, Option.map_eq_some_iff]
  constructor
  · rintro ⟨index, hFound, rfl⟩
    obtain ⟨hBound, hUsed, hFirst⟩ := List.findIdx?_eq_some_iff_getElem.mp hFound
    refine ⟨(waits_iff _ _).mpr ?_, ?_⟩
    · simp only [hNumber hBound]
      exact ⟨hBound, hUsed⟩
    · intro other hOther
      obtain ⟨_, hWaits⟩ := (waits_iff _ _).mp hOther
      rw [UInt32.le_iff_toNat_le, hNumber hBound]
      exact Nat.le_of_not_lt fun hBefore => hFirst _ hBefore hWaits
  · rintro ⟨hWaits, hLeast⟩
    obtain ⟨hBound, hUsed⟩ := (waits_iff _ _).mp hWaits
    refine ⟨label.number.toNat, List.findIdx?_eq_some_iff_getElem.mpr ⟨hBound, hUsed, ?_⟩,
      by rw [UInt32.ofNat_toNat]⟩
    intro index hBefore hUsedBefore
    have hIndex : index < a.labels.length := Nat.lt_trans hBefore hBound
    have hEarlier : a.Waits ⟨UInt32.ofNat index⟩ := by
      rw [waits_iff]
      simp only [hNumber hIndex]
      exact ⟨hIndex, hUsedBefore⟩
    have hOrder := UInt32.le_iff_toNat_le.mp (hLeast _ hEarlier)
    rw [hNumber hIndex] at hOrder
    exact Nat.not_lt_of_le hOrder hBefore

/-- The search finds nothing exactly if nothing waits for any label, whether it
exists or not. -/
theorem firstUnbound_eq_none_iff {a : Assembler} (hLabels : a.labels.length ≤ 4294967296) :
    a.firstUnbound = none ↔ ∀ label, ¬ a.Waits label := by
  constructor
  · intro hNone label hWaits
    rw [firstUnbound, Option.map_eq_none_iff, List.findIdx?_eq_none_iff] at hNone
    obtain ⟨hBound, hUsed⟩ := (waits_iff _ _).mp hWaits
    exact Bool.false_ne_true ((hNone _ (List.getElem_mem hBound)).symm.trans hUsed)
  · intro hNever
    rw [Option.eq_none_iff_forall_ne_some]
    intro label hSome
    exact hNever label ((firstUnbound_eq_some_iff hLabels label).mp hSome).1

end Amd64.Assembler
