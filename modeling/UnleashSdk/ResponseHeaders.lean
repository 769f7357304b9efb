/-
  THE HEADERS OF A RESPONSE THAT CAME BY REDIRECTS.

  libcurl follows redirects and hands `headerCb` the lines of every response of the transfer, in
  order.  The callback writes each field into one map and has no notion of where a response
  begins:

      responses    [etag: "a"] ──redirect──▶ [date: now] ──redirect──▶ ⋯ ──▶ [date: later]
      map          { etag: "a", date: later }

  A lookup finds the last value in all these lines (`lookup_headersOf`), which is the final
  response's own value unless only an earlier response had one.  So the map is the final
  response's exactly if it names every field that an earlier response named
  (`headers_of_final_iff`); otherwise, for one, an ETag of a redirect is cached.
-/
import Mathlib.Data.List.DropRight
import UnleashSdk.Fetcher

set_option linter.unusedVariables false

namespace Unleash

/-! ## The callback -/

/-- The blanks that are trimmed. -/
def headerWhitespace : Bytes := bytes " \t\r\n"

def trimString (str whitespace : Bytes) : Bytes :=
  (str.dropWhile fun b => whitespace.contains b).rdropWhile fun b => whitespace.contains b

/-- Write the field in a line of a response into the map of headers. -/
def headerCb (headers : KeyMap Bytes Bytes) (line : Bytes) : KeyMap Bytes Bytes :=
  match line.findIdx? (· == 0x3A) with
  | none => headers
  | some pos =>
    let key := line.take pos
    let val := line.drop (pos + 1)
    let val := trimString val headerWhitespace
    let key := key.map toLowerByte
    if !key.isEmpty && !val.isEmpty then headers.insert key val else headers

/-- The map that the lines of a transfer leave. -/
def headersOf (lines : List Bytes) : KeyMap Bytes Bytes := lines.foldl headerCb ∅

/-! ## What a response says -/

/-- The field in a line: its name up to the first colon, in lower case, and its trimmed value.
    A field without a name or a value is none. -/
def headerField (line : Bytes) : Option (Bytes × Bytes) :=
  let name := (line.takeWhile (· != 0x3A)).map toLowerByte
  let value := trimString ((line.dropWhile (· != 0x3A)).drop 1) headerWhitespace
  if 0x3A ∈ line ∧ name ≠ [] ∧ value ≠ [] then some (name, value) else none

/-- The value of the last field with this name. -/
def lastValue (lines : List Bytes) (name : Bytes) : Option Bytes :=
  (((lines.filterMap headerField).filter fun f => f.1 = name).getLast?).map Prod.snd

/-- The headers after a transfer of these responses are those of the final one. -/
def OfFinal (earlier : List (List Bytes)) (final : List Bytes) : Prop :=
  ∀ name, (headersOf (earlier.flatten ++ final)).lookup name = lastValue final name

/-! ## The callback, read -/

theorem findIdx?_colon (line : Bytes) : line.findIdx? (· == 0x3A) =
    if 0x3A ∈ line then some (line.takeWhile (· != 0x3A)).length else none := by
  induction line with
  | nil => rfl
  | cons b line ih =>
    rw [List.findIdx?_cons, ih]
    by_cases hb : b = 0x3A
    · simp [hb]
    · have hmem : (0x3A : UInt8) ∈ b :: line ↔ 0x3A ∈ line := by simp [Ne.symm hb]
      have hbeq : (b == 0x3A) = false := by simpa using hb
      simp only [hmem, hbeq, Bool.false_eq_true, if_false]
      split
      · simp [hb]
      · rfl

/-- The callback writes the field of its line. -/
theorem headerCb_eq (headers : KeyMap Bytes Bytes) (line : Bytes) :
    headerCb headers line =
      match headerField line with
      | none => headers
      | some f => headers.insert f.1 f.2 := by
  -- the line, cut at its first colon
  have hcut : ∀ name rest : Bytes, name ++ rest = line →
      line.take name.length = name ∧ line.drop name.length = rest := by
    rintro name rest rfl
    exact ⟨List.take_left, List.drop_left⟩
  obtain ⟨hname, hrest⟩ := hcut (line.takeWhile (· != 0x3A)) (line.dropWhile (· != 0x3A))
    List.takeWhile_append_dropWhile
  have hvalue : line.drop ((line.takeWhile (· != 0x3A)).length + 1) =
      (line.dropWhile (· != 0x3A)).drop 1 := by
    rw [← List.drop_drop, hrest]
  unfold headerCb headerField
  rw [findIdx?_colon]
  by_cases hcolon : (0x3A : UInt8) ∈ line
  · simp only [hcolon, if_true, hname, hvalue, true_and, Bool.and_eq_true, Bool.not_eq_true',
      List.isEmpty_eq_false_iff]
    split
    · rfl
    · rfl
  · simp [hcolon]

theorem lastValue_append (lines more : List Bytes) (name : Bytes) :
    lastValue (lines ++ more) name = (lastValue more name).or (lastValue lines name) := by
  rw [lastValue, List.filterMap_append, List.filter_append, List.getLast?_append, Option.map_or]
  rfl

/-- **A lookup finds the last value.** -/
theorem lookup_headersOf (lines : List Bytes) (name : Bytes) :
    (headersOf lines).lookup name = lastValue lines name := by
  induction lines using List.reverseRecOn with
  | nil => rfl
  | append_singleton lines line ih =>
    have hsnoc : headersOf (lines ++ [line]) = headerCb (headersOf lines) line := by
      rw [headersOf, List.foldl_append]
      rfl
    rw [hsnoc, headerCb_eq, lastValue_append, ← ih]
    cases hfield : headerField line with
    | none => simp [lastValue, hfield]
    | some f =>
      simp only [KeyMap.lookup_insert]
      by_cases hname : name = f.1
      · simp [lastValue, hfield, hname]
      · simp [lastValue, hfield, hname, Ne.symm hname]

/-! ## A transfer -/

/-- A field is the final response's exactly if no earlier response had it alone. -/
theorem lookup_of_final_iff (earlier : List (List Bytes)) (final : List Bytes) (name : Bytes) :
    (headersOf (earlier.flatten ++ final)).lookup name = lastValue final name ↔
      (lastValue earlier.flatten name ≠ none → lastValue final name ≠ none) := by
  rw [lookup_headersOf, lastValue_append]
  cases hfinal : lastValue final name with
  | some value => simp
  | none => simp

/-- **The headers of a transfer.**  They are the final response's exactly if it names every field
    that an earlier response gave a value; the ETag is exactly if the final response has one or
    no earlier response has. -/
theorem headers_of_final_iff (earlier : List (List Bytes)) (final : List Bytes) :
    (OfFinal earlier final ↔
      ∀ name, lastValue earlier.flatten name ≠ none → lastValue final name ≠ none) ∧
    ((headersOf (earlier.flatten ++ final)).lookup (bytes "etag") =
        lastValue final (bytes "etag") ↔
      (lastValue earlier.flatten (bytes "etag") ≠ none →
        lastValue final (bytes "etag") ≠ none)) :=
  ⟨forall_congr' fun name => lookup_of_final_iff earlier final name,
    lookup_of_final_iff earlier final (bytes "etag")⟩

/-- A redirect with an ETag. -/
def redirectLines : List Bytes :=
  [bytes "HTTP/1.1 302 Found\r\n", bytes "ETag: \"old\"\r\n",
    bytes "Location: http://b/c\r\n", bytes "\r\n"]

/-- The response that it leads to, which has none. -/
def finalLines : List Bytes := [bytes "HTTP/1.1 200 OK\r\n", bytes "Date: 10:30\r\n", bytes "\r\n"]

example : headerField (bytes "Date: 10:30\r\n") = some (bytes "date", bytes "10:30") := by decide

/-- What `requestHttp` makes of the two. -/
def redirectedResponse : HttpResponse where
  status := 200
  headers := headersOf ([redirectLines].flatten ++ finalLines)
  body := oneToggleText

/-- The ETag of the redirect is in the map, and a fetcher caches it with the toggles of the final
    response. -/
theorem redirect_etag_kept :
    ¬ OfFinal [redirectLines] finalLines ∧ lastValue finalLines (bytes "etag") = none ∧
    ∀ f : ToggleFetcher,
      (f.handle JsonText.compact (.http redirectedResponse)).2.etag = bytes "\"old\"" := by
  have hlookup : (headersOf ([redirectLines].flatten ++ finalLines)).lookup (bytes "etag") =
      some (bytes "\"old\"") := by
    rw [lookup_headersOf]
    decide
  have hnone : lastValue finalLines (bytes "etag") = none := by decide
  refine ⟨fun h => ?_, hnone, fun f => ?_⟩
  · have heq := (h (bytes "etag")).symm.trans hlookup
    rw [hnone] at heq
    cases heq
  · have haccepted : accepted JsonText.compact (.http redirectedResponse) =
        some (redirectedResponse, oneToggleSet) := by
      have hdecode : decodeClientFeaturesResponse JsonText.compact redirectedResponse.body =
          .ok oneToggleSet := decode_oneToggleText
      simp only [accepted, hdecode]
      exact if_pos (by decide)
    have hetag : redirectedResponse.etag = some (bytes "\"old\"") := by
      rw [HttpResponse.etag, redirectedResponse, hlookup]
      rfl
    rw [ToggleFetcher.handle_accepted haccepted, hetag]
    rfl

end Unleash
