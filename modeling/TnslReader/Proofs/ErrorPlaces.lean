import TnslReader.Proofs.LexicalPlaces
import TnslReader.Proofs.ReaderErrors

/-!
Contract: reports about a source text point into it.

A report points at a token of the stream, or behind the last one, and every token of a source text
lies in the text. So the bytes of a report can be shown there: they are in order, within the text,
and begin and end between two characters.
-/

set_option autoImplicit false

namespace TnslReader

structure Span.LiesIn (span : Span) (source : String) : Prop where
  start_le_stop : span.start ≤ span.stop
  stop_le_size : span.stop ≤ source.utf8ByteSize
  start_isValid : String.Pos.Raw.IsValid source ⟨span.start⟩
  stop_isValid : String.Pos.Raw.IsValid source ⟨span.stop⟩

/-- There is a boundary between characters behind any beginning of a text. -/
theorem isValid_utf8ByteSize {source : String} {before behind : List Char}
    (cut : source.toList = before ++ behind) :
    String.Pos.Raw.IsValid source ⟨(String.ofList before).utf8ByteSize⟩ := by
  have source_eq : source = String.ofList before ++ String.ofList behind := by
    rw [← String.ofList_append, ← cut, String.ofList_toList]
  exact String.Pos.Raw.isValid_iff_exists_append.mpr ⟨_, _, source_eq, rfl⟩

theorem StandsAs.liesIn {source : String} {token : Token} {before slice behind : List Char}
    (stands : StandsAs source token before slice behind) : token.span.LiesIn source := by
  have stop_isValid : String.Pos.Raw.IsValid source ⟨token.span.stop⟩ :=
    stands.stop_eq ▸ isValid_utf8ByteSize stands.source_eq
  exact {
    start_le_stop := Nat.le_of_lt stands.start_lt_stop
    stop_le_size := stop_isValid.le_utf8ByteSize
    start_isValid := stands.start_eq ▸
      isValid_utf8ByteSize (stands.source_eq.trans (List.append_assoc ..))
    stop_isValid := stop_isValid }

theorem Span.LiesIn.behind {span : Span} {source : String} (lies : span.LiesIn source) :
    Span.LiesIn ⟨span.stop, span.stop⟩ source :=
  ⟨Nat.le_refl _, lies.stop_le_size, lies.stop_isValid, lies.stop_isValid⟩

theorem liesIn_of_mem_lex {source : String} {token : Token} (member : token ∈ lex source) :
    token.span.LiesIn source := by
  obtain ⟨before, slice, behind, tokenClass, cut, lexeme, leaves⟩ :=
    exists_leaves_of_mem_lex member
  exact (standsAs_of_leaves cut lexeme leaves).liesIn

/-- Where a source text is not read, the report has the place of a token, or stands behind the last
token, and its bytes lie in the text. -/
theorem readTree_error_places {source label : String} {limits : Limits} {error : ParseError}
    (failed : readTree (lex source) label limits = .error error) :
    error.diagnostic.PointsInto (lex source) ∧ error.diagnostic.span.LiesIn source := by
  have points := readTree_error_pointsInto failed
  refine ⟨points, ?_⟩
  obtain ⟨token, member, -, span_eq | ⟨-, span_eq⟩⟩ := points
  · exact span_eq ▸ liesIn_of_mem_lex member
  · exact span_eq ▸ (liesIn_of_mem_lex member).behind

/-- A block that is not closed. The report points behind its accented name. -/
theorem readTree_error_places_unclosed :
    (ParseError.endOfInput .codeEnd (some ⟨.userWord, "é", 1, 3, ⟨2, 4⟩⟩)).diagnostic.PointsInto
        (lex "/;é") ∧
      Span.LiesIn ⟨4, 4⟩ "/;é" := by
  have failed : readTree (lex "/;é") "file" .standard =
      .error (.endOfInput .codeEnd (some ⟨.userWord, "é", 1, 3, ⟨2, 4⟩⟩)) := by
    decide +kernel
  exact readTree_error_places failed

end TnslReader
