import BekOS.Lib.Between
import BekOS.Library.FormatIntegers

/-!
# Format strings

`bek::internal::format_to`: two cursors run over the format string, and what lies between them is
text that has not been written yet.
-/

namespace BekOS

/-- `{` -/
def openBrace : Byte := charByte '{'

/-- `}` -/
def closeBrace : Byte := charByte '}'

/-- `TypeErasedFormatter`: what its function writes of its value for a specification. -/
structure TypeErasedFormatter where
  formatFn : List Byte → Except Fault (List Byte)

namespace TypeErasedFormatter

/-- `formatter_fn` of an unsigned integer. -/
def ofUnsigned (v : BitVec 64) : TypeErasedFormatter where
  formatFn spec := do
    let formatter ← UnsignedIntegralFormatter.parse {} spec
    formatter.formatTo v

/-- `formatter_fn` of a signed integer. -/
def ofSigned (v : BitVec 64) : TypeErasedFormatter where
  formatFn spec := do
    let formatter ← UnsignedIntegralFormatter.parse {} spec
    formatter.formatSignedTo v

end TypeErasedFormatter

namespace Format

section Loop

variable (formatStr : List Byte) (parameters : List TypeErasedFormatter)

/-- `format_str[i]` -/
def charAt (i : ℕ) : Except Fault Byte :=
  match formatStr.drop i with
  | c :: _ => .ok c
  | [] => .error .panic

/-- `format_str.substr(a_index, b_index - a_index)` -/
def substr (pos len : ℕ) : Except Fault (List Byte) := do
  verify (pos ≤ formatStr.length)
  return (formatStr.drop pos).take (min len (formatStr.length - pos))

/-- What is written of the text between the cursors. -/
def pendingText (aIndex bIndex : ℕ) : Except Fault (List Byte) :=
  if bIndex > aIndex then substr formatStr aIndex (bIndex - aIndex) else .ok []

/-- The loop to the closing brace, with so many characters in front of the end. -/
def findClose : ℕ → ℕ → Except Fault ℕ
  | left, bIndex =>
      if bIndex < formatStr.length then
        match left with
        | 0 => .error .outOfBounds
        | left + 1 => do
            let c ← charAt formatStr bIndex
            if c ≠ closeBrace then findClose left (bIndex + 1) else return bIndex
      else .ok bIndex

/-- `parameters[param_index]` -/
def parameterAt (paramIndex : ℕ) : Except Fault TypeErasedFormatter :=
  match parameters.drop paramIndex with
  | parameter :: _ => .ok parameter
  | [] => .error .panic

/-- The loop of `format_to`, with so many characters in front of the end. -/
def formatLoop : ℕ → ℕ → ℕ → ℕ → List Byte → Except Fault (List Byte)
  | left, aIndex, bIndex, paramIndex, out =>
      if bIndex < formatStr.length then
        match left with
        | 0 => .error .outOfBounds
        | left + 1 => do
            let c ← charAt formatStr bIndex
            if c = openBrace then
              verify (bIndex + 1 < formatStr.length)
              let text ← pendingText formatStr aIndex bIndex
              let c ← charAt formatStr (bIndex + 1)
              if c = openBrace then
                formatLoop left (bIndex + 1) (bIndex + 2) paramIndex (out ++ text)
              else
                let close ← findClose formatStr (formatStr.length - (bIndex + 1)) (bIndex + 1)
                let formatSpec ← substr formatStr (bIndex + 1) (close - (bIndex + 1))
                let parameter ← parameterAt parameters paramIndex
                let formatted ← parameter.formatFn formatSpec
                formatLoop left (close + 1) (close + 1) (paramIndex + 1)
                  (out ++ text ++ formatted)
            else if c = closeBrace then
              verify (bIndex + 1 < formatStr.length)
              let c ← charAt formatStr (bIndex + 1)
              verify (c = closeBrace)
              formatLoop left (bIndex + 1) (bIndex + 2) paramIndex out
            else formatLoop left aIndex (bIndex + 1) paramIndex out
      else do
        let text ← pendingText formatStr aIndex bIndex
        return out ++ text

/-- `format_to`: what is written to the stream. -/
def formatTo : Except Fault (List Byte) :=
  formatLoop formatStr parameters formatStr.length 0 0 0 []

end Loop

/-! ## What a format string says -/

/-- A piece of a format string. -/
inductive Piece where
  | char (c : Byte)
  | openEscape
  | closeEscape
  | placeholder (spec : List Byte)
  deriving DecidableEq, Repr

namespace Piece

/-- How a piece is spelt. -/
def render : Piece → List Byte
  | char c => [c]
  | openEscape => [openBrace, openBrace]
  | closeEscape => [closeBrace, closeBrace]
  | placeholder spec => openBrace :: (spec ++ [closeBrace])

/-- A character is not a brace; what a specification begins with is no escape, and it has an end. -/
def Proper : Piece → Prop
  | char c => c ≠ openBrace ∧ c ≠ closeBrace
  | openEscape => True
  | closeEscape => True
  | placeholder spec => spec.head? ≠ some openBrace ∧ closeBrace ∉ spec

theorem all_ne_iff (spec : List Byte) :
    (spec.all fun c => c != closeBrace) = true ↔ closeBrace ∉ spec := by
  rw [List.all_eq_true]
  constructor
  · intro h hmem
    exact absurd (h closeBrace hmem) (by decide)
  · rintro h c hc
    refine bne_iff_ne.mpr ?_
    rintro rfl
    exact h hc

instance : DecidablePred Proper
  | char c => inferInstanceAs (Decidable (c ≠ openBrace ∧ c ≠ closeBrace))
  | openEscape => isTrue trivial
  | closeEscape => isTrue trivial
  | placeholder spec =>
      decidable_of_iff
        (spec.head? ≠ some openBrace ∧ (spec.all fun c => c != closeBrace) = true)
        (and_congr_right' (all_ne_iff spec))

def IsPlaceholder : Piece → Prop
  | placeholder _ => True
  | _ => False

instance : DecidablePred IsPlaceholder := fun piece => by
  cases piece <;> unfold IsPlaceholder <;> infer_instance

end Piece

/-- A well-formed format string. -/
structure FormatString where
  pieces : List Piece
  proper : ∀ piece ∈ pieces, piece.Proper

def renderPieces (pieces : List Piece) : List Byte := pieces.flatMap Piece.render

def FormatString.render (s : FormatString) : List Byte := renderPieces s.pieces

/-- What the pieces say of parameters: as many as there are placeholders, each formatted with the
specification of its placeholder. -/
inductive Says : List Piece → List TypeErasedFormatter → List Byte → Prop
  | nil : Says [] [] []
  | char {pieces parameters out} (c : Byte) (h : Says pieces parameters out) :
      Says (.char c :: pieces) parameters (c :: out)
  | openEscape {pieces parameters out} (h : Says pieces parameters out) :
      Says (.openEscape :: pieces) parameters (openBrace :: out)
  | closeEscape {pieces parameters out} (h : Says pieces parameters out) :
      Says (.closeEscape :: pieces) parameters (closeBrace :: out)
  | placeholder {pieces parameters out parameter spec formatted}
      (hformat : parameter.formatFn spec = .ok formatted) (h : Says pieces parameters out) :
      Says (.placeholder spec :: pieces) (parameter :: parameters) (formatted ++ out)

/-- Each `}}` is the first piece, or directly behind a placeholder. -/
def ClosesApart (pieces : List Piece) : Prop :=
  pieces.IsChain fun piece next => next = .closeEscape → piece.IsPlaceholder

/-- How many characters are dropped, with so many of them between the cursors. -/
def dropped : ℕ → List Piece → ℕ
  | _, [] => 0
  | pending, .char _ :: pieces => dropped (pending + 1) pieces
  | _, .openEscape :: pieces => dropped 1 pieces
  | pending, .closeEscape :: pieces => pending + dropped 1 pieces
  | _, .placeholder _ :: pieces => dropped 0 pieces

section Run

variable {s rest spec formatted out : List Byte} {parameters : List TypeErasedFormatter}
  {parameter : TypeErasedFormatter} {c : Byte} {left aIndex bIndex paramIndex : ℕ}

theorem charAt_cons (h : s.drop bIndex = c :: rest) : charAt s bIndex = .ok c := by
  rw [charAt, h]

theorem substr_eq (hle : aIndex ≤ bIndex) (hlast : bIndex ≤ s.length) :
    substr s aIndex (bIndex - aIndex) = .ok (between s aIndex bIndex) := by
  rw [substr, verify_of (by omega), ok_bind, Nat.min_eq_left (by omega)]
  rfl

theorem pendingText_eq (hle : aIndex ≤ bIndex) (hlast : bIndex ≤ s.length) :
    pendingText s aIndex bIndex = .ok (between s aIndex bIndex) := by
  unfold pendingText
  split_ifs with h
  · exact substr_eq hle hlast
  · rw [(between_eq_nil_iff hle hlast).mpr h]

theorem findClose_eq (h : s.drop bIndex = spec ++ closeBrace :: rest) (hspec : closeBrace ∉ spec)
    (hleft : spec.length < left) : findClose s left bIndex = .ok (bIndex + spec.length) := by
  induction spec generalizing bIndex left with
  | nil =>
      unfold findClose
      cases left with
      | zero => cases hleft
      | succ left =>
          rw [if_pos (lt_length_of_drop h)]
          dsimp only
          rw [charAt_cons h, ok_bind, if_neg (not_not.mpr rfl)]
          rfl
  | cons c spec ih =>
      rw [List.mem_cons, not_or] at hspec
      rw [List.length_cons] at hleft
      unfold findClose
      cases left with
      | zero => cases hleft
      | succ left =>
          rw [if_pos (lt_length_of_drop h)]
          dsimp only
          rw [charAt_cons h, ok_bind, if_pos fun hc => hspec.1 hc.symm,
            ih (drop_succ_of_cons h) hspec.2 (by omega), List.length_cons]
          exact congrArg _ (by omega)

theorem formatLoop_nil (h : s.drop bIndex = []) (hle : aIndex ≤ bIndex)
    (hlast : bIndex ≤ s.length) : formatLoop s parameters left aIndex bIndex paramIndex out =
      .ok (out ++ between s aIndex bIndex) := by
  have hend : s.length = bIndex := length_of_drop h hlast
  unfold formatLoop
  rw [if_neg (by omega), pendingText_eq hle hlast]
  rfl

theorem formatLoop_char (h : s.drop bIndex = c :: rest) (hc : (Piece.char c).Proper) :
    formatLoop s parameters (left + 1) aIndex bIndex paramIndex out =
      formatLoop s parameters left aIndex (bIndex + 1) paramIndex out := by
  conv_lhs => unfold formatLoop
  rw [if_pos (lt_length_of_drop h)]
  dsimp only
  rw [charAt_cons h, ok_bind, if_neg hc.1, if_neg hc.2]

theorem formatLoop_openEscape (h : s.drop bIndex = openBrace :: openBrace :: rest)
    (hle : aIndex ≤ bIndex) :
    formatLoop s parameters (left + 1) aIndex bIndex paramIndex out =
      formatLoop s parameters left (bIndex + 1) (bIndex + 2) paramIndex
        (out ++ between s aIndex bIndex) := by
  have hnext := drop_succ_of_cons h
  have hlt := lt_length_of_drop h
  conv_lhs => unfold formatLoop
  rw [if_pos hlt]
  dsimp only
  rw [charAt_cons h, ok_bind, if_pos rfl, verify_of (lt_length_of_drop hnext), ok_bind,
    pendingText_eq hle (by omega), ok_bind, charAt_cons hnext, ok_bind, if_pos rfl]

theorem formatLoop_closeEscape (h : s.drop bIndex = closeBrace :: closeBrace :: rest) :
    formatLoop s parameters (left + 1) aIndex bIndex paramIndex out =
      formatLoop s parameters left (bIndex + 1) (bIndex + 2) paramIndex out := by
  have hnext := drop_succ_of_cons h
  have hne : closeBrace ≠ openBrace := by decide
  conv_lhs => unfold formatLoop
  rw [if_pos (lt_length_of_drop h)]
  dsimp only
  rw [charAt_cons h, ok_bind, if_neg hne, if_pos rfl, verify_of (lt_length_of_drop hnext), ok_bind,
    charAt_cons hnext, ok_bind, verify_of rfl, ok_bind]

theorem formatLoop_placeholder (h : s.drop bIndex = openBrace :: (spec ++ closeBrace :: rest))
    (hspec : (Piece.placeholder spec).Proper) (hle : aIndex ≤ bIndex)
    {parameters' : List TypeErasedFormatter}
    (hparameters : parameters.drop paramIndex = parameter :: parameters')
    (hformat : parameter.formatFn spec = .ok formatted) :
    formatLoop s parameters (left + 1) aIndex bIndex paramIndex out =
      formatLoop s parameters left (bIndex + 1 + spec.length + 1) (bIndex + 1 + spec.length + 1)
        (paramIndex + 1) (out ++ between s aIndex bIndex ++ formatted) := by
  have hnext := drop_succ_of_cons h
  have hlt := lt_length_of_drop h
  have hlength := length_of_drop hnext (by omega)
  rw [List.length_append, List.length_cons] at hlength
  obtain ⟨c, tail, htail⟩ : ∃ c tail, spec ++ closeBrace :: rest = c :: tail := by
    cases spec with
    | nil => exact ⟨_, _, rfl⟩
    | cons c spec => exact ⟨_, _, rfl⟩
  have hc : c ≠ openBrace := by
    rintro rfl
    cases spec with
    | nil => exact absurd (List.cons.inj htail).1 (by decide)
    | cons c spec => exact hspec.1 (congrArg some (List.cons.inj htail).1)
  have hread : charAt s (bIndex + 1) = .ok c := charAt_cons (hnext.trans htail)
  have hparameter : parameterAt parameters paramIndex = .ok parameter := by
    rw [parameterAt, hparameters]
  conv_lhs => unfold formatLoop
  rw [if_pos hlt]
  dsimp only
  rw [charAt_cons h, ok_bind, if_pos rfl, verify_of (by omega), ok_bind,
    pendingText_eq hle (by omega), ok_bind, hread, ok_bind, if_neg hc,
    findClose_eq hnext hspec.2 (by omega), ok_bind, substr_eq (by omega) (by omega), ok_bind,
    between_of_append hnext, hparameter, ok_bind, hformat, ok_bind]

end Run

/-! ## What is written -/

section Says

variable {s out result : List Byte} {parameters parameters' : List TypeErasedFormatter}
  {pieces : List Piece} {left aIndex bIndex paramIndex : ℕ}

theorem renderPieces_cons (piece : Piece) (pieces : List Piece) :
    renderPieces (piece :: pieces) = piece.render ++ renderPieces pieces := List.flatMap_cons

/-- What the loop writes is as much shorter as characters are dropped, and if none is it is the text
between the cursors and what the pieces say. -/
theorem formatLoop_spells (h : Says pieces parameters' result)
    (hproper : ∀ piece ∈ pieces, piece.Proper) (hdrop : s.drop bIndex = renderPieces pieces)
    (hle : aIndex ≤ bIndex) (hlast : bIndex ≤ s.length)
    (hparameters : parameters.drop paramIndex = parameters') (hleft : s.length ≤ bIndex + left) :
    ∃ text, formatLoop s parameters left aIndex bIndex paramIndex out = .ok (out ++ text) ∧
      text.length + dropped (bIndex - aIndex) pieces = bIndex - aIndex + result.length ∧
      (dropped (bIndex - aIndex) pieces = 0 → text = between s aIndex bIndex ++ result) := by
  induction h generalizing left aIndex bIndex paramIndex out with
  | nil =>
      refine ⟨_, formatLoop_nil hdrop hle hlast, ?_, fun _ => (List.append_nil _).symm⟩
      rw [length_between hlast]
      rfl
  | @char pieces parameters' result c h ih =>
      obtain ⟨hpiece, hproper⟩ := List.forall_mem_cons.mp hproper
      have hcons : s.drop bIndex = c :: renderPieces pieces := hdrop
      have hlt := lt_length_of_drop hcons
      obtain ⟨left, rfl⟩ : ∃ rest, left = rest + 1 := ⟨left - 1, by omega⟩
      obtain ⟨text, htext, hlength, hzero⟩ := @ih out left aIndex (bIndex + 1) paramIndex hproper
        (drop_succ_of_cons hcons) (by omega) (by omega) hparameters (by omega)
      have hpending : bIndex + 1 - aIndex = bIndex - aIndex + 1 := by omega
      rw [hpending] at hlength hzero
      refine ⟨text, (formatLoop_char hcons hpiece).trans htext, ?_, fun h => ?_⟩
      · rw [dropped, List.length_cons]
        omega
      · rw [hzero h, between_succ hcons hle, List.append_assoc]
        rfl
  | @openEscape pieces parameters' result h ih =>
      obtain ⟨hpiece, hproper⟩ := List.forall_mem_cons.mp hproper
      have hcons : s.drop bIndex = openBrace :: openBrace :: renderPieces pieces := hdrop
      have hnext := drop_succ_of_cons hcons
      have hlt := lt_length_of_drop hnext
      obtain ⟨left, rfl⟩ : ∃ rest, left = rest + 1 := ⟨left - 1, by omega⟩
      obtain ⟨text, htext, hlength, hzero⟩ := @ih (out ++ between s aIndex bIndex) left (bIndex + 1)
        (bIndex + 2) paramIndex hproper (drop_succ_of_cons hnext) (by omega) (by omega) hparameters
        (by omega)
      have hpending : bIndex + 2 - (bIndex + 1) = 1 := by omega
      rw [hpending] at hlength hzero
      refine ⟨between s aIndex bIndex ++ text, ?_, ?_, fun h => ?_⟩
      · rw [formatLoop_openEscape hcons hle, htext, List.append_assoc]
      · rw [dropped, List.length_append, length_between hlast, List.length_cons]
        omega
      · rw [hzero h, between_singleton hnext]
        rfl
  | @closeEscape pieces parameters' result h ih =>
      obtain ⟨hpiece, hproper⟩ := List.forall_mem_cons.mp hproper
      have hcons : s.drop bIndex = closeBrace :: closeBrace :: renderPieces pieces := hdrop
      have hnext := drop_succ_of_cons hcons
      have hlt := lt_length_of_drop hnext
      obtain ⟨left, rfl⟩ : ∃ rest, left = rest + 1 := ⟨left - 1, by omega⟩
      obtain ⟨text, htext, hlength, hzero⟩ := @ih out left (bIndex + 1) (bIndex + 2) paramIndex
        hproper (drop_succ_of_cons hnext) (by omega) (by omega) hparameters (by omega)
      have hpending : bIndex + 2 - (bIndex + 1) = 1 := by omega
      rw [hpending] at hlength hzero
      refine ⟨text, (formatLoop_closeEscape hcons).trans htext, ?_, fun h => ?_⟩
      · rw [dropped, List.length_cons]
        omega
      · rw [dropped, Nat.add_eq_zero_iff] at h
        obtain rfl : aIndex = bIndex := by omega
        rw [hzero h.2, between_singleton hnext, between_self]
        rfl
  | @placeholder pieces parameters' result parameter spec formatted hformat h ih =>
      obtain ⟨hpiece, hproper⟩ := List.forall_mem_cons.mp hproper
      have hcons : s.drop bIndex =
          openBrace :: (spec ++ closeBrace :: renderPieces pieces) := by
        rw [hdrop, renderPieces_cons, Piece.render, List.cons_append, List.append_assoc]
        rfl
      have hlt := lt_length_of_drop hcons
      have hlength := length_of_drop hcons hlast
      rw [List.length_cons, List.length_append, List.length_cons] at hlength
      have hbehind : s.drop (bIndex + 1 + spec.length) = closeBrace :: renderPieces pieces := by
        rw [← List.drop_drop, drop_succ_of_cons hcons, List.drop_left]
      obtain ⟨left, rfl⟩ : ∃ rest, left = rest + 1 := ⟨left - 1, by omega⟩
      obtain ⟨text, htext, hlength, hzero⟩ := @ih (out ++ between s aIndex bIndex ++ formatted) left
        (bIndex + 1 + spec.length + 1) (bIndex + 1 + spec.length + 1) (paramIndex + 1) hproper
        (drop_succ_of_cons hbehind) (Nat.le_refl _) (by omega) (drop_succ_of_cons hparameters)
        (by omega)
      rw [Nat.sub_self] at hlength hzero
      refine ⟨between s aIndex bIndex ++ formatted ++ text, ?_, ?_, fun h => ?_⟩
      · rw [formatLoop_placeholder hcons hpiece hle hparameters hformat, htext, List.append_assoc,
          List.append_assoc, List.append_assoc]
      · rw [dropped, List.length_append, List.length_append, length_between hlast,
          List.length_append]
        omega
      · rw [hzero h, between_self, List.append_assoc]
        rfl

theorem dropped_eq_zero_iff (pending : ℕ) (pieces : List Piece) : dropped pending pieces = 0 ↔
    ClosesApart pieces ∧ (pending = 0 ∨ pieces.head? ≠ some .closeEscape) := by
  induction pieces generalizing pending with
  | nil => exact iff_of_true rfl ⟨List.IsChain.nil, Or.inr (by simp)⟩
  | cons piece pieces ih =>
      have hchain : ClosesApart (piece :: pieces) ↔
          (piece.IsPlaceholder ∨ pieces.head? ≠ some .closeEscape) ∧ ClosesApart pieces := by
        unfold ClosesApart
        cases pieces with
        | nil => simp
        | cons next pieces =>
            rw [List.isChain_cons_cons, List.head?_cons]
            simp only [ne_eq, Option.some.injEq]
            tauto
      cases piece <;> simp [dropped, ih, hchain, Piece.IsPlaceholder] <;> tauto

theorem formatTo_says {s : FormatString} {parameters : List TypeErasedFormatter}
    (h : Says s.pieces parameters result) : ∃ text, formatTo s.render parameters = .ok text ∧
      text.length + dropped 0 s.pieces = result.length ∧
      (dropped 0 s.pieces = 0 → text = result) := by
  obtain ⟨text, htext, hlength, hzero⟩ := @formatLoop_spells s.render [] result parameters parameters
    s.pieces s.render.length 0 0 0 h s.proper rfl (Nat.le_refl _) (Nat.zero_le _) rfl (by omega)
  rw [Nat.sub_self, Nat.zero_add] at hlength
  exact ⟨text, htext, hlength, hzero⟩

/-- **`format_to`** writes what the pieces say exactly when no `}}` is behind a character or an
escape: what it has not written yet is lost there. -/
theorem formatTo_iff (s : FormatString) (parameters : List TypeErasedFormatter)
    (result : List Byte) (h : Says s.pieces parameters result) :
    formatTo s.render parameters = .ok result ↔ ClosesApart s.pieces := by
  obtain ⟨text, htext, hlength, hzero⟩ := formatTo_says h
  have hdropped := dropped_eq_zero_iff 0 s.pieces
  constructor
  · intro hresult
    obtain rfl : text = result := Except.ok.inj (htext.symm.trans hresult)
    exact (hdropped.mp (by omega)).1
  · intro hcloses
    rw [htext, hzero (hdropped.mpr ⟨hcloses, Or.inl rfl⟩)]

/-- The format string `{:x}}}: {:d}`. -/
def address : FormatString where
  pieces := [.placeholder ([':', 'x'].map charByte), .closeEscape, .char (charByte ':'),
    .char (charByte ' '), .placeholder ([':', 'd'].map charByte)]
  proper := by decide

theorem formatTo_iff_address :
    formatTo address.render [.ofUnsigned 0x8A00, .ofSigned (-7)] =
      .ok (['8', 'a', '0', '0', '}', ':', ' ', '-', '7'].map charByte) ↔
      ClosesApart address.pieces :=
  formatTo_iff address _ _
    (@Says.placeholder _ _ _ _ _ (['8', 'a', '0', '0'].map charByte) rfl
      (.closeEscape (.char _ (.char _
        (@Says.placeholder _ _ _ _ _ (['-', '7'].map charByte) rfl .nil)))))

/-- The format string `a}}`. -/
def letterBrace : FormatString where
  pieces := [.char (charByte 'a'), .closeEscape]
  proper := by decide

/-- The letter is lost. -/
theorem formatTo_drops : Says letterBrace.pieces [] (['a', '}'].map charByte) ∧
    formatTo letterBrace.render [] ≠ .ok (['a', '}'].map charByte) := by
  refine ⟨.char _ (.closeEscape .nil), ?_⟩
  have hwritten : formatTo letterBrace.render [] = .ok (['}'].map charByte) := rfl
  rw [hwritten]
  decide

end Says

end Format

end BekOS
