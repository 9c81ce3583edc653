import Amd64.Action.Layout
import Amd64.Proofs.Assembler.Labels

/-!
The second pass over the chunks of a survey: where its gaps are, that it goes
on where it stopped, and that patching every gap of a label is the same as
having known the label from the beginning.
-/

namespace Amd64.Survey

def width : List Chunk → Nat
  | [] => 0
  | chunk :: rest => chunk.length + width rest

def gaps (label : Label) : (position : Nat) → List Chunk → List Nat
  | _, [] => []
  | position, .bytes content :: rest => gaps label (position + content.length) rest
  | position, .gap other :: rest =>
      if other = label then position :: gaps label (position + 4) rest
      else gaps label (position + 4) rest

/-- What a gap is filled with: nothing but zeros, if its label is not among the
targets. -/
def filling (targets : List (Label × Nat)) (label : Label) (field : Nat) : Int32 :=
  match targets.lookup label with
  | some target => Assembler.distance target field
  | none => 0

/-- The bytes of a distance are those of the distance modulo their room.
Nothing is assumed of how far apart the two ends are. -/
theorem word_distance (target field : Nat) :
    LittleEndian.word (Assembler.distance target field) =
      LittleEndian.bytes 4 (((target : Int) - (field + 4)) % 4294967296).toNat := by
  have hValue : (Assembler.distance target field).toUInt32.toNat =
      (((target : Int) - (field + 4)) % 4294967296).toNat := BitVec.toNat_ofInt _
  rw [LittleEndian.word, hValue]

/-- A distance is exact if both of its ends are low. Two positions below two to
the thirty-one are never too far apart for four bytes. -/
theorem toInt_distance {target field : Nat} (hTarget : target < 2147483648)
    (hField : field + 4 < 2147483648) :
    (Assembler.distance target field).toInt = target - (field + 4) := by
  rw [Assembler.distance]
  exact Int32.toInt_ofInt_of_le (by omega) (by omega)

theorem write_gap (targets : List (Label × Nat)) (position : Nat) (label : Label)
    (rest : List Chunk) :
    write targets position (.gap label :: rest) =
      LittleEndian.word (filling targets label position) ++
        write targets (position + 4) rest := rfl

@[simp] theorem width_append (first second : List Chunk) :
    width (first ++ second) = width first + width second := by
  induction first with
  | nil => simp [width]
  | cons chunk rest ih =>
      rw [List.cons_append, width, width, ih]
      omega

/-- What fills the gaps has no influence on where anything stands. This is why
one pass is enough to find all the positions. -/
@[simp] theorem length_write (targets : List (Label × Nat)) (position : Nat)
    (chunks : List Chunk) : (write targets position chunks).length = width chunks := by
  induction chunks generalizing position with
  | nil => rfl
  | cons chunk rest ih => cases chunk <;> simp [write, width, Chunk.length, ih]

/-- Chunks are written one after another, the later ones from where the earlier
ones end. -/
theorem write_append (targets : List (Label × Nat)) (position : Nat)
    (first second : List Chunk) :
    write targets position (first ++ second) =
      write targets position first ++ write targets (position + width first) second := by
  induction first generalizing position with
  | nil => rfl
  | cons chunk rest ih =>
      cases chunk <;> simp [write, width, Chunk.length, ih, Nat.add_assoc]

/-- The gaps among chunks are those of the first ones and those of the others,
whose positions begin where the first ones end. -/
theorem gaps_append (label : Label) (position : Nat) (first second : List Chunk) :
    gaps label position (first ++ second) =
      gaps label position first ++ gaps label (position + width first) second := by
  induction first generalizing position with
  | nil => rfl
  | cons chunk rest ih =>
      cases chunk with
      | bytes content => simp [gaps, width, Chunk.length, ih, Nat.add_assoc]
      | gap other =>
          by_cases hOther : other = label <;>
            simp [gaps, hOther, width, Chunk.length, ih, Nat.add_assoc]

/-- A gap begins where the chunks before it end, and every gap for the label is
found in this way. -/
theorem mem_gaps_iff (label : Label) (position field : Nat) (chunks : List Chunk) :
    field ∈ gaps label position chunks ↔
      ∃ first second, chunks = first ++ .gap label :: second ∧ field = position + width first := by
  constructor
  · intro h
    induction chunks generalizing position with
    | nil => cases h
    | cons chunk rest ih =>
        have hRest {next : Nat} (hField : field ∈ gaps label next rest)
            (hNext : next = position + chunk.length) :
            ∃ first second, chunk :: rest = first ++ .gap label :: second ∧
              field = position + width first := by
          obtain ⟨first, second, rfl, rfl⟩ := ih next hField
          refine ⟨chunk :: first, second, rfl, ?_⟩
          rw [width, hNext, Nat.add_assoc]
        cases chunk with
        | bytes content => exact hRest h rfl
        | gap other =>
            rw [gaps] at h
            by_cases hOther : other = label
            · rw [if_pos hOther, List.mem_cons] at h
              rcases h with rfl | h
              · rw [hOther]
                exact ⟨[], rest, rfl, rfl⟩
              · exact hRest h rfl
            · rw [if_neg hOther] at h
              exact hRest h rfl
  · rintro ⟨first, second, rfl, rfl⟩
    simp [gaps_append, gaps]

/-- There is a field for the label exactly if there is a gap for it. -/
theorem gaps_ne_nil_iff (label : Label) (position : Nat) (chunks : List Chunk) :
    gaps label position chunks ≠ [] ↔ .gap label ∈ chunks := by
  constructor
  · intro hSome
    obtain ⟨field, hField⟩ := List.exists_mem_of_ne_nil _ hSome
    obtain ⟨first, second, rfl, -⟩ := (mem_gaps_iff _ _ _ _).mp hField
    simp
  · intro hGap
    obtain ⟨first, second, hSplit⟩ := List.append_of_mem hGap
    exact List.ne_nil_of_mem ((mem_gaps_iff _ _ _ _).mpr ⟨first, second, hSplit, rfl⟩)

/-- A gap lies between the ends of the chunks, with all its four bytes.
Patching it stays inside the code. -/
theorem bounds_of_mem_gaps {label : Label} {position field : Nat} {chunks : List Chunk}
    (h : field ∈ gaps label position chunks) :
    position ≤ field ∧ field + 4 ≤ position + width chunks := by
  obtain ⟨first, second, rfl, rfl⟩ := (mem_gaps_iff _ _ _ _).mp h
  simp only [width_append, width, Chunk.length]
  omega

/-- The four bytes of a gap hold what it is filled with, and what follows the
gap follows them. -/
theorem drop_write_of_mem_gaps (targets : List (Label × Nat)) {label : Label} {field : Nat}
    {chunks : List Chunk} (h : field ∈ gaps label 0 chunks) :
    (write targets 0 chunks).drop field =
      LittleEndian.word (filling targets label field) ++
        (write targets 0 chunks).drop (field + 4) := by
  obtain ⟨first, second, rfl, hField⟩ := (mem_gaps_iff _ _ _ _).mp h
  have hFirst : (write targets 0 first).length = field := by simp [hField]
  rw [write_append, write_gap, ← hField, ← List.drop_drop, List.drop_left' hFirst,
    List.drop_left' (LittleEndian.length_word _)]

/-- Outside of the gaps a byte does not depend on any target. Two lists of
targets that have nothing in common give the same byte there. -/
theorem getElem?_write_of_not_gap (targets others : List (Label × Nat)) (position index : Nat)
    (chunks : List Chunk)
    (hOutside : ∀ label, ∀ field ∈ gaps label position chunks,
      position + index < field ∨ field + 4 ≤ position + index) :
    (write targets position chunks)[index]? = (write others position chunks)[index]? := by
  induction chunks generalizing position index with
  | nil => rfl
  | cons chunk rest ih =>
      cases chunk with
      | bytes content =>
          rw [write, write, List.getElem?_append, List.getElem?_append]
          by_cases hIndex : index < content.length
          · rw [if_pos hIndex, if_pos hIndex]
          · rw [if_neg hIndex, if_neg hIndex]
            apply ih
            intro label field hField
            have hAround := hOutside label field hField
            omega
      | gap other =>
          have hHere := hOutside other position (by simp [gaps])
          have hIndex : 4 ≤ index := by omega
          rw [write_gap, write_gap, List.getElem?_append_right (by simp; exact hIndex),
            List.getElem?_append_right (by simp; exact hIndex)]
          simp only [LittleEndian.length_word]
          apply ih
          intro label field hField
          have hMem : field ∈ gaps label position (.gap other :: rest) := by
            rw [gaps]
            split
            · exact List.mem_cons_of_mem _ hField
            · exact hField
          have hAround := hOutside label field hMem
          omega

theorem lookup_append_self {targets : List (Label × Nat)} {label : Label} {target : Nat}
    (h : targets.lookup label = none) :
    (targets ++ [(label, target)]).lookup label = some target := by
  simp [List.lookup_append, h]

theorem lookup_append_of_ne (targets : List (Label × Nat)) {label other : Label} {target : Nat}
    (h : other ≠ label) :
    (targets ++ [(label, target)]).lookup other = targets.lookup other := by
  have hOther : (other == label) = false := beq_eq_false_iff_ne.mpr h
  rw [List.lookup_append, List.lookup_cons, hOther]
  simp

/-- Patching four bytes that stand between others. As many are written as were
there, so that the ones behind stay in their places. -/
theorem patch_between (a : Assembler) (before old new after : List UInt8)
    (hBytes : a.bytes = before ++ (old ++ after)) (hLength : old.length = new.length) :
    a.patch before.length new = { a with bytes := before ++ (new ++ after) } := by
  rw [Assembler.patch, hBytes, ← hLength, ← List.drop_drop]
  simp

/-- Patching inside what stands from some position on. Whatever is before that
position has no part in it and is not looked at. -/
theorem drop_patch (a : Assembler) (start : Nat) (leading old new trailing : List UInt8)
    (hStart : start ≤ a.position) (hDrop : a.bytes.drop start = leading ++ old ++ trailing)
    (hLength : old.length = new.length) :
    (a.patch (start + leading.length) new).bytes.drop start = leading ++ new ++ trailing := by
  have hTake : (a.bytes.take start).length = start := List.length_take_of_le hStart
  have hBytes : a.bytes = (a.bytes.take start ++ leading) ++ (old ++ trailing) := by
    rw [List.append_assoc, ← List.append_assoc leading, ← hDrop, List.take_append_drop]
  have hPatched := patch_between a (a.bytes.take start ++ leading) old new trailing hBytes hLength
  rw [List.length_append, hTake] at hPatched
  rw [hPatched, List.append_assoc, List.drop_left' hTake, List.append_assoc]

/-- Patching every gap of a label is the same as having known the label from
the beginning. The induction moves along the chunks, so that `before` holds
what is already patched. -/
theorem patch_gaps {targets : List (Label × Nat)} {label : Label}
    (hUnbound : targets.lookup label = none) (target : Nat) (a : Assembler)
    (before : List UInt8) (chunks : List Chunk)
    (hBytes : a.bytes = before ++ write targets before.length chunks) :
    a.patchWords (Assembler.distance target) (gaps label before.length chunks) =
      { a with
        bytes := before ++ write (targets ++ [(label, target)]) before.length chunks } := by
  induction chunks generalizing a before with
  | nil =>
      rw [write] at hBytes
      rw [gaps, Assembler.patchWords, List.foldl_nil, write, ← hBytes]
  | cons chunk rest ih =>
      cases chunk with
      | bytes content =>
          have hRest := ih a (before ++ content) (by rw [hBytes]; simp [write])
          rw [List.length_append] at hRest
          rw [gaps, hRest]
          simp [write]
      | gap other =>
          rw [write_gap] at hBytes
          by_cases hOther : other = label
          -- The gap is patched first and then counts to what stands before the rest.
          · subst hOther
            have hFilling : filling (targets ++ [(other, target)]) other before.length =
                Assembler.distance target before.length := by
              rw [filling, lookup_append_self hUnbound]
            have hPatched := patch_between a before _
              (LittleEndian.word (Assembler.distance target before.length)) _ hBytes (by simp)
            have hRest := ih
              (a.patch before.length (LittleEndian.word (Assembler.distance target before.length)))
              (before ++ LittleEndian.word (Assembler.distance target before.length))
              (by rw [hPatched]; simp)
            rw [List.length_append, LittleEndian.length_word] at hRest
            rw [gaps, if_pos rfl, Assembler.patchWords_cons, hRest, hPatched, write_gap, hFilling,
              List.append_assoc]
          · have hFilling : filling (targets ++ [(label, target)]) other before.length =
                filling targets other before.length := by
              rw [filling, lookup_append_of_ne targets hOther, filling]
            have hRest := ih a (before ++ LittleEndian.word (filling targets other before.length))
              (by rw [hBytes]; simp)
            rw [List.length_append, LittleEndian.length_word] at hRest
            rw [gaps, if_neg hOther, hRest, write_gap, hFilling, List.append_assoc]

end Amd64.Survey
