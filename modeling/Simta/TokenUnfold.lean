import Simta.HeaderParse

/-!
# Unfolding a token in its buffers

`line_token_unfold` of `header.c` with the memory it asks for: the text of a token is copied to a buffer, and with
every line of the header that the token continues on to a larger one.

* `HeapString`, `unfoldHeap` — buffers with their sizes, and the function;
* `LineToken.Spans`, `lineTokenBetween_spans` — a token that stands in a header, as the scanners find it;
* `LineToken.unfoldedText` — its text, with a blank for each line break and the white space behind it;
* `unfoldLoop_spec` — the loop over the lines: every buffer but the last is large enough;
* `unfold_fits_iff` — exactly when all writes are inside of the buffers.
-/

set_option autoImplicit false

namespace Simta

/-! ## The function -/

/-- How a call ends early: it returns -1, it reads behind the last line, or it writes the string `text` and its NUL
    to a buffer of `size` bytes that does not hold them. -/
inductive UnfoldStop
  | noMemory
  | outside
  | overrun (size : Nat) (text : Text)
  deriving DecidableEq, Repr

/-- A buffer, and the string in it. -/
structure HeapString where
  size : Nat
  text : Text
  deriving DecidableEq, Repr

/-- The allocation number `n` of a call; `malloc` tells for each whether it is got. -/
def mallocString (malloc : Nat → Bool) (n len : Nat) : Except UnfoldStop HeapString :=
  if malloc n then .ok ⟨len, []⟩ else .error .noMemory

/-- A string and its NUL written to a buffer. -/
def HeapString.write (buf : HeapString) (t : Text) : Except UnfoldStop HeapString :=
  if t.length + 1 ≤ buf.size then .ok { buf with text := t } else .error (.overrun buf.size t)

/-- How far the loop over white space goes in a line. -/
def wsLength (line : Text) : Nat := (line.takeWhile fun c => c = ' ' || c = '\t').length

/-- The last line: up to the end of the token, which `t_end` is on. -/
def unfoldLast (malloc : Nat → Bool) (token : LineToken) (data : Text) (n len : Nat) (unfolded : Text) :
    Except UnfoldStop Text := do
  let c := dropWs data
  let count := token.tEnd.off - wsLength data
  let tmp ← mallocString malloc n (len + count)
  -- the `sprintf` and the `strncat`
  let tmp ← tmp.write (unfolded ++ [' '])
  let tmp ← tmp.write (tmp.text ++ c.take count)
  return tmp.text

/-- The loop behind the line number `line`, with `left` lines behind that; `n` counts the allocations. -/
def unfoldLoop (malloc : Nat → Bool) (f : Field) (token : LineToken) :
    Nat → Nat → Nat → Nat → Text → Except UnfoldStop Text
  | 0, _, _, _, _ => .error .outside
  | left + 1, line, n, len, unfolded =>
    if line + 1 = token.tEndLine then unfoldLast malloc token (f.getD (line + 1) []) n len unfolded
    else do
      let c := dropWs (f.getD (line + 1) [])
      let tmp ← mallocString malloc n (len + (c.length + 1))
      let tmp ← tmp.write (unfolded ++ ' ' :: c)
      unfoldLoop malloc f token left (line + 1) (n + 1) (len + (c.length + 1)) tmp.text

/-- `line_token_unfold` from the first character of the token on, which stands at `start`. -/
def unfoldHeap (malloc : Nat → Bool) (f : Field) (token : LineToken) (start : CharPtr) : Except UnfoldStop Text :=
  if token.tStartLine = token.tEndLine then do
    let len := token.tEnd.off - start.off + 1
    let buf ← mallocString malloc 0 len
    -- the `strncpy` to memory that was set to zero
    let buf ← buf.write ((f.text start).take (len - 1))
    return buf.text
  else do
    let len := (f.text start).length + 1
    let buf ← mallocString malloc 0 len
    let buf ← buf.write (f.text start)
    unfoldLoop malloc f token (f.length - (token.tStartLine + 1)) token.tStartLine 1 len buf.text

/-! ## Tokens of a header -/

/-- A token stands in the lines of a header: it begins at `start`, and its last character is in the same line or in
    a later one, where it is not part of the white space that the line begins with. -/
structure LineToken.Spans (f : Field) (token : LineToken) (start : CharPtr) : Prop where
  tStart : token.tStart = some start
  tStartLine : token.tStartLine = start.line
  order : token.tStartLine ≤ token.tEndLine
  inside : token.tEndLine < f.length
  tEnd : token.tEnd.off ≤ (f.getD token.tEndLine []).length
  single : token.tStartLine = token.tEndLine → start.off ≤ token.tEnd.off
  folded : token.tStartLine ≠ token.tEndLine → wsLength (f.getD token.tEndLine []) < token.tEnd.off

/-- The lines of a token behind the line number `line`: those in between, and the last up to its end. -/
def LineToken.continued (f : Field) (token : LineToken) (line : Nat) : List Text :=
  (List.range' (line + 1) (token.tEndLine - (line + 1))).map (fun l => f.getD l []) ++
    [(f.getD token.tEndLine []).take token.tEnd.off]

/-- Lines behind a text: a blank for each line break and the white space that follows it. -/
def unfoldLines (first : Text) (rest : List Text) : Text := first ++ rest.flatMap fun line => ' ' :: dropWs line

/-- The text of a token with its line breaks unfolded. -/
def LineToken.unfoldedText (f : Field) (token : LineToken) (start : CharPtr) : Text :=
  if token.tStartLine = token.tEndLine then (f.text start).take (token.tEnd.off - start.off)
  else unfoldLines (f.text start) (token.continued f token.tStartLine)

/-- Every write of the call is inside of its buffer, and a text that it leaves is that of the token. -/
def UnfoldsRight (malloc : Nat → Bool) (f : Field) (token : LineToken) (start : CharPtr) : Prop :=
  match unfoldHeap malloc f token start with
  | .ok text => text = token.unfoldedText f start
  | .error .noMemory => True
  | .error _ => False

variable {malloc : Nat → Bool} {f : Field} {token : LineToken} {start : CharPtr}

/-! ## White space and lines -/

theorem dropWs_eq_drop : ∀ line : Text, dropWs line = line.drop (wsLength line)
  | [] => rfl
  | c :: line => by
    have ih := dropWs_eq_drop line
    unfold dropWs wsLength at ih ⊢
    rw [List.dropWhile_cons, List.takeWhile_cons]
    split
    · exact ih
    · rfl

/-- What is copied of the last line. -/
theorem dropWs_take : ∀ (line : Text) (k : Nat), (dropWs line).take (k - wsLength line) = dropWs (line.take k)
  | [], _ => by rw [List.take_nil]; exact List.take_nil
  | c :: line, 0 => by rw [Nat.zero_sub]; rfl
  | c :: line, k + 1 => by
    have ih := dropWs_take line k
    unfold dropWs wsLength at ih ⊢
    rw [List.take_succ_cons, List.dropWhile_cons, List.takeWhile_cons, List.dropWhile_cons]
    split
    · rw [List.length_cons, Nat.add_sub_add_right]
      exact ih
    · rfl

@[simp] theorem length_dropWs (line : Text) : (dropWs line).length = line.length - wsLength line := by
  rw [dropWs_eq_drop, List.length_drop]

theorem unfoldLines_cons (first line : Text) (rest : List Text) :
    unfoldLines first (line :: rest) = unfoldLines (first ++ ' ' :: dropWs line) rest := by
  simp [unfoldLines]

/-- The next line is in between. -/
theorem LineToken.continued_step {line : Nat} (h : line + 1 < token.tEndLine) :
    token.continued f line = f.getD (line + 1) [] :: token.continued f (line + 1) := by
  unfold LineToken.continued
  obtain ⟨k, hk⟩ : ∃ k, token.tEndLine - (line + 1) = k + 1 := ⟨token.tEndLine - (line + 1) - 1, by omega⟩
  rw [hk, List.range'_succ, show token.tEndLine - (line + 1 + 1) = k by omega]
  rfl

/-- The next line is the last one. -/
theorem LineToken.continued_last {line : Nat} (h : line + 1 = token.tEndLine) :
    token.continued f line = [(f.getD token.tEndLine []).take token.tEnd.off] := by
  unfold LineToken.continued
  rw [h, Nat.sub_self]
  rfl

/-! ## The loop -/

/-- The last buffer has room for the text, but not for its NUL. -/
theorem unfoldLast_spec {data unfolded : Text} {n : Nat} (hws : wsLength data < token.tEnd.off)
    (hend : token.tEnd.off ≤ data.length) :
    unfoldLast malloc token data n (unfolded.length + 1) unfolded =
      .error (if malloc n then
          .overrun (unfoldLines unfolded [data.take token.tEnd.off]).length
            (unfoldLines unfolded [data.take token.tEnd.off])
        else .noMemory) := by
  unfold unfoldLast mallocString
  cases malloc n with
  | false => rfl
  | true =>
    have hcopied : ((dropWs data).take (token.tEnd.off - wsLength data)).length =
        token.tEnd.off - wsLength data := by
      rw [List.length_take, length_dropWs]
      omega
    have htext : unfoldLines unfolded [data.take token.tEnd.off] =
        unfolded ++ [' '] ++ (dropWs data).take (token.tEnd.off - wsLength data) := by
      rw [dropWs_take]
      simp [unfoldLines]
    have hsize : (unfoldLines unfolded [data.take token.tEnd.off]).length =
        unfolded.length + 1 + (token.tEnd.off - wsLength data) := by
      rw [htext, List.length_append, hcopied, List.length_append]
      rfl
    have hblank : (unfolded ++ [' ']).length + 1 ≤ unfolded.length + 1 + (token.tEnd.off - wsLength data) := by
      rw [List.length_append]
      exact Nat.add_le_add_left (by omega) _
    have hcopy : ¬ (unfolded ++ [' '] ++ (dropWs data).take (token.tEnd.off - wsLength data)).length + 1 ≤
        unfolded.length + 1 + (token.tEnd.off - wsLength data) := by
      rw [← htext, hsize]
      omega
    show ((HeapString.write _ _).bind fun tmp => _) = _
    unfold HeapString.write
    rw [if_pos hblank]
    show ((if _ then _ else _ : Except UnfoldStop HeapString).bind fun tmp => _) = _
    rw [if_neg hcopy, hsize, htext]
    rfl

/-- **The loop over the lines.**  Every buffer holds the text so far, its size is kept in `len`, and the last one is
    too small by one. -/
theorem unfoldLoop_spec (hend : token.tEnd.off ≤ (f.getD token.tEndLine []).length)
    (hws : wsLength (f.getD token.tEndLine []) < token.tEnd.off) (left line n : Nat) (unfolded : Text)
    (hline : line < token.tEndLine) (hleft : token.tEndLine ≤ line + left) :
    unfoldLoop malloc f token left line n (unfolded.length + 1) unfolded =
      .error (if (List.range' n (token.tEndLine - line)).all malloc then
          .overrun (unfoldLines unfolded (token.continued f line)).length
            (unfoldLines unfolded (token.continued f line))
        else .noMemory) := by
  induction left generalizing line n unfolded with
  | zero => omega
  | succ left ih =>
    unfold unfoldLoop
    by_cases hlast : line + 1 = token.tEndLine
    · rw [if_pos hlast, hlast, unfoldLast_spec hws hend, LineToken.continued_last hlast,
        show token.tEndLine - line = 1 by omega]
      simp
    · obtain ⟨k, hk⟩ : ∃ k, token.tEndLine - line = k + 1 := ⟨token.tEndLine - line - 1, by omega⟩
      rw [if_neg hlast, LineToken.continued_step (by omega), unfoldLines_cons, hk, List.range'_succ, List.all_cons]
      unfold mallocString
      cases malloc n with
      | false => rfl
      | true =>
        have hlength : unfolded.length + 1 + ((dropWs (f.getD (line + 1) [])).length + 1) =
            (unfolded ++ ' ' :: dropWs (f.getD (line + 1) [])).length + 1 := by
          rw [List.length_append, List.length_cons]
          omega
        rw [Bool.true_and, show k = token.tEndLine - (line + 1) by omega, ← ih (line + 1) (n + 1) _ (by omega) (by omega),
          ← hlength]
        show ((HeapString.write _ _).bind fun tmp => _) = _
        unfold HeapString.write
        rw [if_pos (Nat.le_of_eq hlength.symm)]
        rfl

/-! ## The whole call -/

/-- A token in one line. -/
theorem unfoldHeap_single (hline : token.tStartLine = token.tEndLine) :
    unfoldHeap malloc f token start =
      if malloc 0 then .ok (token.unfoldedText f start) else .error .noMemory := by
  unfold unfoldHeap LineToken.unfoldedText mallocString
  rw [if_pos hline, if_pos hline]
  cases malloc 0 with
  | false => rfl
  | true =>
    have hroom : ((f.text start).take (token.tEnd.off - start.off + 1 - 1)).length + 1 ≤
        token.tEnd.off - start.off + 1 :=
      Nat.succ_le_succ (List.length_take_le _ _)
    show ((HeapString.write _ _).bind fun tmp => _) = _
    unfold HeapString.write
    rw [if_pos hroom]
    rfl

/-- A token that goes on in a later line. -/
theorem unfoldHeap_folded (h : token.Spans f start) (hline : token.tStartLine ≠ token.tEndLine) :
    unfoldHeap malloc f token start =
      .error (if (List.range' 0 (token.tEndLine - token.tStartLine + 1)).all malloc then
          .overrun (token.unfoldedText f start).length (token.unfoldedText f start)
        else .noMemory) := by
  have horder := h.order
  have hinside := h.inside
  unfold unfoldHeap LineToken.unfoldedText
  rw [if_neg hline, if_neg hline, List.range'_succ, List.all_cons]
  unfold mallocString
  cases malloc 0 with
  | false => rfl
  | true =>
    rw [Bool.true_and,
      ← unfoldLoop_spec h.tEnd (h.folded hline) (f.length - (token.tStartLine + 1)) token.tStartLine 1 (f.text start)
        (by omega) (by omega)]
    show ((HeapString.write _ _).bind fun tmp => _) = _
    unfold HeapString.write
    rw [if_pos (Nat.le_refl _)]
    rfl

/-- What the functions that read the header take for the text of a token is what the buffer holds. -/
theorem lineTokenUnfold_eq (h : token.Spans f start) : lineTokenUnfold f token = .ok (token.unfoldedText f start) := by
  unfold lineTokenUnfold LineToken.unfoldedText LineToken.text
  rw [h.tStart]
  split
  · rfl
  · show Except.ok _ = _
    unfold unfoldLines LineToken.continued
    rw [List.flatMap_append, List.flatMap_map, List.append_assoc]
    simp

/-! ## The tokens that the scanners find -/

theorem quoteText_found {close : Char} : ∀ {t : Text} {off e : Nat}, quoteText close t off = .close e →
    off ≤ e ∧ t[e - off]? = some close
  | [], _, _, h => QuoteEnd.noConfusion h
  | [c], off, e, h => by
    rw [quoteText.eq_def] at h
    dsimp only at h
    split at h
    · rename_i hc
      obtain rfl : off = e := QuoteEnd.close.inj h
      exact ⟨Nat.le_refl _, by rw [Nat.sub_self, hc]; rfl⟩
    · split at h
      · exact QuoteEnd.noConfusion h
      · exact QuoteEnd.noConfusion h
  | c :: d :: t, off, e, h => by
    rw [quoteText.eq_def] at h
    dsimp only at h
    split at h
    · rename_i hc
      obtain rfl : off = e := QuoteEnd.close.inj h
      exact ⟨Nat.le_refl _, by rw [Nat.sub_self, hc]; rfl⟩
    · split at h
      · obtain ⟨hle, hget⟩ := quoteText_found h
        refine ⟨by omega, ?_⟩
        rw [show e - off = e - (off + 2) + 2 by omega]
        exact hget
      · obtain ⟨hle, hget⟩ := quoteText_found h
        refine ⟨by omega, ?_⟩
        rw [show e - off = e - (off + 1) + 1 by omega]
        exact hget

/-- A character that is no white space stands behind the white space of its line. -/
theorem wsLength_le {c : Char} (hc : (c = ' ' || c = '\t') = false) : ∀ {t : Text} {i : Nat},
    t[i]? = some c → wsLength t ≤ i
  | [], _, h => by cases h
  | d :: t, 0, h => by
    obtain rfl : d = c := Option.some.inj h
    unfold wsLength
    rw [List.takeWhile_cons, if_neg (by rw [hc]; exact Bool.false_ne_true)]
    exact Nat.le_refl _
  | d :: t, i + 1, h => by
    have ih := wsLength_le hc (t := t) (i := i) h
    unfold wsLength at ih ⊢
    rw [List.takeWhile_cons]
    split
    · exact Nat.succ_le_succ ih
    · exact Nat.zero_le _

/-- Where the loop finds the end of a token. -/
structure QuoteFound (f : Field) (close : Char) (c : CharPtr) (e : CharPtr × Nat) : Prop where
  order : c.line ≤ e.2
  single : c.line = e.2 → c.off < e.1.off
  char : (f.getD e.2 [])[e.1.off - 1]? = some close
  pos : 0 < e.1.off

theorem quoteLines_found {close : Char} (left : Nat) {c : CharPtr} {e : CharPtr × Nat}
    (h : quoteLines f close left c.line c = some e) : QuoteFound f close c e ∧ e.2 ≤ c.line + left := by
  have hclose : ∀ {c : CharPtr} {off : Nat}, quoteText close (f.text c) c.off = .close off →
      QuoteFound f close c (⟨c.line, off + 1⟩, c.line) := by
    intro c off h
    obtain ⟨hle, hget⟩ := quoteText_found h
    refine ⟨Nat.le_refl _, fun _ => Nat.lt_succ_of_le hle, ?_, Nat.succ_pos _⟩
    unfold Field.text at hget
    rw [List.getElem?_drop, Nat.add_sub_cancel' hle] at hget
    exact hget
  induction left generalizing c with
  | zero =>
    rw [quoteLines.eq_def] at h
    dsimp only at h
    split at h
    · cases h
    · rename_i off hoff
      obtain rfl := Option.some.inj h
      exact ⟨hclose hoff, Nat.le_refl _⟩
    · cases h
  | succ left ih =>
    rw [quoteLines.eq_def] at h
    dsimp only at h
    split at h
    · cases h
    · rename_i off hoff
      obtain rfl := Option.some.inj h
      exact ⟨hclose hoff, Nat.le_add_right _ _⟩
    · obtain ⟨hfound, hle⟩ := ih (c := ⟨c.line + 1, 1⟩) h
      have horder : c.line + 1 ≤ e.2 := hfound.order
      exact ⟨⟨by omega, fun heq => by omega, hfound.char, hfound.pos⟩, by
        show e.2 ≤ c.line + (left + 1)
        have : e.2 ≤ c.line + 1 + left := hle
        omega⟩

/-- **The tokens of the scanners** for quoted strings and domain literals stand in the header. -/
theorem lineTokenBetween_spans {tType : TokenType} {opening close : Char} (hclose : (close = ' ' || close = '\t') = false)
    (hstart : start.line < f.length) (h : lineTokenBetween tType opening close f start.line start = some token) :
    token.Spans f start := by
  unfold lineTokenBetween at h
  split at h
  · obtain ⟨e, he, rfl⟩ := Option.map_eq_some_iff.mp h
    obtain ⟨hfound, hle⟩ := quoteLines_found (c := ⟨start.line, start.off + 1⟩) _ he
    have hlt := (List.getElem?_eq_some_iff.mp hfound.char).choose
    have hpos := hfound.pos
    have hws := wsLength_le hclose hfound.char
    refine ⟨rfl, rfl, hfound.order, ?_, ?_, fun heq => ?_, fun _ => ?_⟩
    · show e.2 < f.length
      have hle' : e.2 ≤ start.line + (f.length - (start.line + 1)) := hle
      omega
    · show e.1.off ≤ (f.getD e.2 []).length
      omega
    · have hsingle : start.off + 1 < e.1.off := hfound.single heq
      show start.off ≤ e.1.off
      omega
    · show wsLength (f.getD e.2 []) < e.1.off
      omega
  · cases h

theorem lineTokenQuotedString_spans (hstart : start.line < f.length)
    (h : lineTokenQuotedString f start.line start = some token) : token.Spans f start :=
  lineTokenBetween_spans (by decide) hstart h

/-! ## Room for the text -/

/-- A header of two lines, with a line break in the local part of its address. -/
def foldedLocal : Field := ["\"a".toList, " b\"@h.org".toList]

/-- The token that is found there. -/
def foldedToken : LineToken := ⟨.quotedString, some ⟨0, 0⟩, 0, ⟨1, 3⟩, 1⟩

theorem foldedToken_found : lineTokenQuotedString foldedLocal 0 ⟨0, 0⟩ = some foldedToken := by
  simp [lineTokenQuotedString, lineTokenBetween, quoteLines, quoteText, foldedLocal, foldedToken, Field.char, Field.text]

theorem foldedToken_spans : foldedToken.Spans foldedLocal ⟨0, 0⟩ :=
  lineTokenQuotedString_spans (by decide) foldedToken_found

/-- A header of one line with a quoted local part. -/
def plainLocal : Field := ["\"a\"@h.org".toList]

/-- The token that is found there. -/
def plainToken : LineToken := ⟨.quotedString, some ⟨0, 0⟩, 0, ⟨0, 3⟩, 0⟩

theorem plainToken_spans : plainToken.Spans plainLocal ⟨0, 0⟩ := by
  apply lineTokenQuotedString_spans (by decide)
  simp [lineTokenQuotedString, lineTokenBetween, quoteLines, quoteText, plainLocal, plainToken, Field.char, Field.text]

/-- **Exactly when the writes fit.**  A token that ends in the line it begins in is copied to a buffer with room for
    it; of every other the last buffer is one byte too small, so that the call does right only when it stops before
    for want of memory. -/
theorem unfold_fits_iff (h : token.Spans f start) :
    UnfoldsRight malloc f token start ↔
      token.tStartLine = token.tEndLine ∨ ∃ n ≤ token.tEndLine - token.tStartLine, malloc n = false := by
  unfold UnfoldsRight
  by_cases hline : token.tStartLine = token.tEndLine
  · rw [unfoldHeap_single hline]
    cases malloc 0 with
    | false => exact iff_of_true trivial (.inl hline)
    | true => exact iff_of_true rfl (.inl hline)
  · rw [unfoldHeap_folded h hline]
    cases hall : (List.range' 0 (token.tEndLine - token.tStartLine + 1)).all malloc with
    | true =>
      apply iff_of_false
      · exact id
      · rintro (heq | ⟨n, hn, hno⟩)
        · exact hline heq
        · have hyes := List.all_eq_true.mp hall n (List.mem_range'_1.mpr ⟨Nat.zero_le _, by omega⟩)
          rw [hno] at hyes
          exact Bool.noConfusion hyes
    | false =>
      obtain ⟨n, hn, hno⟩ := List.all_eq_false.mp hall
      have hle := (List.mem_range'_1.mp hn).2
      exact iff_of_true trivial (.inr ⟨n, by omega, Bool.eq_false_iff.mpr hno⟩)

/-- The text of a token in one line fits. -/
theorem unfold_fits_iff_plain : UnfoldsRight (fun _ => true) plainLocal plainToken ⟨0, 0⟩ :=
  (unfold_fits_iff plainToken_spans).mpr (.inl rfl)

/-- Five bytes are asked for, and six written: the token of a header, with all the memory it asks for. -/
theorem not_unfold_fits :
    lineTokenQuotedString foldedLocal 0 ⟨0, 0⟩ = some foldedToken ∧
      unfoldHeap (fun _ => true) foldedLocal foldedToken ⟨0, 0⟩ = .error (.overrun 5 "\"a b\"".toList) ∧
      ¬ UnfoldsRight (fun _ => true) foldedLocal foldedToken ⟨0, 0⟩ := by
  have hrun : unfoldHeap (fun _ => true) foldedLocal foldedToken ⟨0, 0⟩ = .error (.overrun 5 "\"a b\"".toList) :=
    (unfoldHeap_folded foldedToken_spans (by decide)).trans rfl
  refine ⟨foldedToken_found, hrun, fun h => ?_⟩
  unfold UnfoldsRight at h
  rw [hrun] at h
  exact h

end Simta
