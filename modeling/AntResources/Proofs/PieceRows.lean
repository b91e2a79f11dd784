import AntResources.Pattern.Regex
import AntResources.Proofs.SegmentText

/-!
# AntResources.Proofs.PieceRows

**What a row of pieces denotes.** `Piece.Denotes` reads a row as the regular expression that it
stands for: each piece takes some text, and the rest of the row takes what is left. The set of rows
that `Piece.matches` carries along is a subset construction over this reading, so it is right as soon
as one step is: `denotes_cons_iff` says that the rows after reading `c` denote exactly what can
follow `c`, and `canEnd_iff_denotes_nil` which rows may stop.

The end of a row may stand before one last line feed, so `matches_iff_denotes` has two cases.
-/

namespace AntResources.Piece

open Text

/-! ### Meaning of a row -/

/-- Names, each with a slash after it. -/
def aboveText (names : List (List Char)) : List Char := names.flatMap (· ++ ['/'])

/-- A slash in front moves every slash before its name. -/
theorem cons_aboveText_append (names : List (List Char)) (rest : List Char) :
    '/' :: (aboveText names ++ rest) = belowText names ++ '/' :: rest := by
  induction names with
  | nil => rfl
  | cons name names ih =>
      simp only [aboveText, List.flatMap_cons, List.append_assoc, belowText_cons, List.cons_append,
        List.nil_append] at ih ⊢
      rw [ih]

/-- The texts that a row of pieces stands for. Each piece takes what its regular expression takes. -/
def Denotes : List Piece → List Char → Prop
  | [], text => text = []
  | .exactly c :: row, text => ∃ rest, text = c :: rest ∧ Denotes row rest
  | .one :: row, text => ∃ c rest, text = c :: rest ∧ c ≠ '/' ∧ Denotes row rest
  | .run :: row, text => ∃ name rest, text = name ++ rest ∧ '/' ∉ name ∧ Denotes row rest
  | .anything :: row, text => ∃ line rest, text = line ++ rest ∧ '\n' ∉ line ∧ Denotes row rest
  | .below :: row, text =>
    Denotes row text ∨ ∃ line rest, text = '/' :: (line ++ rest) ∧ '\n' ∉ line ∧ Denotes row rest
  | .folders :: row, text =>
    ∃ names rest, text = aboveText names ++ rest ∧ (∀ name ∈ names, IsSegment name) ∧
      Denotes row rest
  | .foldersBetween :: row, text =>
    ∃ names rest, text = belowText names ++ '/' :: rest ∧ (∀ name ∈ names, IsSegment name) ∧
      Denotes row rest

@[simp] theorem denotes_exactly_cons {row : List Piece} {c d : Char} {text : List Char} :
    Denotes (.exactly d :: row) (c :: text) ↔ c = d ∧ Denotes row text := by
  simp [Denotes, and_assoc]

@[simp] theorem denotes_one_cons {row : List Piece} {c : Char} {text : List Char} :
    Denotes (.one :: row) (c :: text) ↔ c ≠ '/' ∧ Denotes row text := by
  simp [Denotes, and_assoc]

/-- A row can stop exactly if it stands for the empty text. -/
theorem canEnd_iff_denotes_nil (row : List Piece) : canEnd row = true ↔ Denotes row [] := by
  induction row with
  | nil => simp [canEnd, Denotes]
  | cons piece row ih =>
      cases piece with
      | exactly c => simp [canEnd, Denotes]
      | one => simp [canEnd, Denotes]
      | run => simp [canEnd, Denotes, ih, and_assoc]
      | anything => simp [canEnd, Denotes, ih, and_assoc]
      | below => simpa [canEnd, Denotes] using ih
      | folders =>
          simp only [canEnd, Denotes, ih]
          constructor
          · intro h
            exact ⟨[], [], rfl, by simp, h⟩
          · intro hsplit
            obtain ⟨names, rest, h, -, hrest⟩ := hsplit
            obtain ⟨-, rfl⟩ := List.append_eq_nil_iff.mp h.symm
            exact hrest
      | foldersBetween => simp [canEnd, Denotes]

/-! ### One step -/

/-- A run of characters begins with `c`, or it is empty and the rest of the row does. -/
theorem denotes_run_cons {row : List Piece} {c : Char} {text : List Char} :
    Denotes (.run :: row) (c :: text) ↔
      (c ≠ '/' ∧ Denotes (.run :: row) text) ∨ Denotes row (c :: text) := by
  constructor
  · intro hsplit
    obtain ⟨name, rest, h, hname, hrest⟩ := hsplit
    cases name with
    | nil =>
        rw [List.nil_append] at h
        exact Or.inr (h ▸ hrest)
    | cons d name =>
        obtain ⟨rfl, rfl⟩ := List.cons.inj h
        rw [List.mem_cons, not_or] at hname
        exact Or.inl ⟨fun hc => hname.1 hc.symm, name, rest, rfl, hname.2, hrest⟩
  · intro hcases
    rcases hcases with ⟨hc, name, rest, rfl, hname, hrest⟩ | h
    · exact ⟨c :: name, rest, rfl, by simp [hname, hc.symm], hrest⟩
    · exact ⟨[], c :: text, rfl, by simp, h⟩

/-- A text on one line begins with `c`, or it is empty and the rest of the row does. -/
theorem denotes_anything_cons {row : List Piece} {c : Char} {text : List Char} :
    Denotes (.anything :: row) (c :: text) ↔
      (c ≠ '\n' ∧ Denotes (.anything :: row) text) ∨ Denotes row (c :: text) := by
  constructor
  · intro hsplit
    obtain ⟨line, rest, h, hline, hrest⟩ := hsplit
    cases line with
    | nil =>
        rw [List.nil_append] at h
        exact Or.inr (h ▸ hrest)
    | cons d line =>
        obtain ⟨rfl, rfl⟩ := List.cons.inj h
        rw [List.mem_cons, not_or] at hline
        exact Or.inl ⟨fun hc => hline.1 hc.symm, line, rest, rfl, hline.2, hrest⟩
  · intro hcases
    rcases hcases with ⟨hc, line, rest, rfl, hline, hrest⟩ | h
    · exact ⟨c :: line, rest, rfl, by simp [hline, hc.symm], hrest⟩
    · exact ⟨[], c :: text, rfl, by simp, h⟩

/-- Folders with the slash before each and one more slash are a slash and then folders with the
slash after each. -/
theorem denotes_foldersBetween_iff {row : List Piece} {text : List Char} :
    Denotes (.foldersBetween :: row) text ↔ Denotes (.exactly '/' :: .folders :: row) text := by
  constructor
  · intro hsplit
    obtain ⟨names, rest, h, hnames, hrest⟩ := hsplit
    rw [← cons_aboveText_append] at h
    exact ⟨_, h, names, rest, rfl, hnames, hrest⟩
  · intro hsplit
    obtain ⟨_, rfl, names, rest, rfl, hnames, hrest⟩ := hsplit
    exact ⟨names, rest, cons_aboveText_append names rest, hnames, hrest⟩

/-- After a slash either the folders are over, or the next one begins. -/
theorem denotes_foldersBetween_cons {row : List Piece} {c : Char} {text : List Char} :
    Denotes (.foldersBetween :: row) (c :: text) ↔
      c = '/' ∧ (Denotes row text ∨ Denotes (.one :: .run :: .foldersBetween :: row) text) := by
  constructor
  · intro hsplit
    obtain ⟨names, rest, h, hnames, hrest⟩ := hsplit
    cases names with
    | nil =>
        obtain ⟨rfl, rfl⟩ := List.cons.inj h
        exact ⟨rfl, Or.inl hrest⟩
    | cons name names =>
        obtain ⟨hseg, hmore⟩ := List.forall_mem_cons.mp hnames
        obtain ⟨rfl, rfl⟩ := List.cons.inj h
        refine ⟨rfl, Or.inr ?_⟩
        cases name with
        | nil => exact absurd rfl hseg.1
        | cons d name =>
            have hd : d ≠ '/' ∧ '/' ∉ name := by
              simpa [eq_comm] using hseg.2
            refine denotes_one_cons.mpr ⟨hd.1, name, belowText names ++ '/' :: rest, ?_, hd.2, ?_⟩
            · exact List.append_assoc name (belowText names) _
            · exact ⟨names, rest, rfl, hmore, hrest⟩
  · intro hsplit
    obtain ⟨rfl, h | ⟨d, -, rfl, hd, name, -, rfl, hname, names, rest, rfl, hnames, hrest⟩⟩ := hsplit
    · exact ⟨[], text, rfl, by simp, h⟩
    · refine ⟨(d :: name) :: names, rest, by simp, ?_, hrest⟩
      rw [List.forall_mem_cons]
      exact ⟨⟨by simp, by simp [hname, hd.symm]⟩, hnames⟩

/-- The rows that can be left after reading `c` denote exactly what can follow `c`. -/
theorem denotes_cons_iff (c : Char) (text : List Char) (row : List Piece) :
    Denotes row (c :: text) ↔ ∃ next ∈ step c row, Denotes next text := by
  induction row with
  | nil => simp [step, Denotes]
  | cons piece row ih =>
      cases piece with
      | exactly d =>
          by_cases h : c = d
          · simp [step, h]
          · simp [step, h]
      | one =>
          by_cases h : c = '/'
          · simp [step, h]
          · simp [step, h]
      | run =>
          rw [denotes_run_cons, ih]
          by_cases h : c = '/'
          · simp [step, h]
          · simp [step, h]
      | anything =>
          rw [denotes_anything_cons, ih]
          by_cases h : c = '\n'
          · simp [step, h]
          · simp [step, h]
      | below =>
          have hbelow : Denotes (.below :: row) (c :: text) ↔
              (c = '/' ∧ Denotes (.anything :: row) text) ∨ Denotes row (c :: text) := by
            simp only [Denotes, List.cons.injEq]
            grind
          rw [hbelow, ih]
          by_cases h : c = '/'
          · simp [step, h]
          · simp [step, h]
      | folders =>
          -- With a slash in front the folders are those between, which begin as one piece more.
          have hslash : Denotes (.folders :: row) (c :: text) ↔
              Denotes (.foldersBetween :: row) ('/' :: c :: text) := by
            rw [denotes_foldersBetween_iff, denotes_exactly_cons]
            simp
          have hfolders : Denotes (.folders :: row) (c :: text) ↔
              (c ≠ '/' ∧ Denotes (.run :: .exactly '/' :: .folders :: row) text) ∨
                Denotes row (c :: text) := by
            rw [hslash, denotes_foldersBetween_cons]
            have hrun : Denotes (.run :: .foldersBetween :: row) text ↔
                Denotes (.run :: .exactly '/' :: .folders :: row) text :=
              exists_congr fun _ => exists_congr fun _ => and_congr_right fun _ =>
                and_congr_right fun _ => denotes_foldersBetween_iff
            rw [← hrun, denotes_one_cons, or_comm]
            simp
          rw [hfolders, ih]
          by_cases h : c = '/'
          · simp [step, h]
          · simp [step, h]
      | foldersBetween =>
          rw [denotes_foldersBetween_cons]
          by_cases h : c = '/'
          · simp [step, h]
          · simp [step, h]

/-! ### Whole texts -/

/-- Matching reads off what the rows denote. The text may have one last line feed more. -/
theorem matches_iff_denotes (rows : List (List Piece)) (text : List Char) :
    Piece.matches rows text = true ↔
      ∃ row ∈ rows, Denotes row text ∨ ∃ line, text = line ++ ['\n'] ∧ Denotes row line := by
  induction text generalizing rows with
  | nil => simp [Piece.matches, canEnd_iff_denotes_nil]
  | cons c rest ih =>
      have hnext : (∃ next ∈ (rows.flatMap (step c)).eraseDups,
            Denotes next rest ∨ ∃ line, rest = line ++ ['\n'] ∧ Denotes next line) ↔
          ∃ row ∈ rows, Denotes row (c :: rest) ∨
            ∃ line, rest = line ++ ['\n'] ∧ Denotes row (c :: line) := by
        simp only [List.mem_eraseDups, List.mem_flatMap, denotes_cons_iff]
        grind
      have hline : ∀ row, (∃ line, c :: rest = line ++ ['\n'] ∧ Denotes row line) ↔
          (c :: rest = [] ++ ['\n'] ∧ Denotes row []) ∨
            ∃ line, rest = line ++ ['\n'] ∧ Denotes row (c :: line) := by
        intro row
        constructor
        · intro hsplit
          obtain ⟨line, h, hrow⟩ := hsplit
          cases line with
          | nil => exact Or.inl ⟨h, hrow⟩
          | cons d line =>
              obtain ⟨rfl, rfl⟩ := List.cons.inj h
              exact Or.inr ⟨line, rfl, hrow⟩
        · intro hcases
          rcases hcases with ⟨h, hrow⟩ | ⟨line, rfl, hrow⟩
          · exact ⟨[], h, hrow⟩
          · exact ⟨c :: line, rfl, hrow⟩
      simp only [Piece.matches, Bool.or_eq_true, Bool.and_eq_true, decide_eq_true_eq,
        List.isEmpty_iff, List.any_eq_true, canEnd_iff_denotes_nil, ih, hnext, hline]
      grind

end AntResources.Piece
