import CppRag.JsonBounds
import Mathlib.Data.List.TakeWhile

/-!
The renderings of a tree: its tokens, each in one of its spellings, with whitespace around
them. The reader inverts every one of them.
-/
namespace CppRag.Json
open Characters Observed Slice

inductive Mark where
  | openBrace
  | closeBrace
  | openBracket
  | closeBracket
  | colon
  | comma
  deriving DecidableEq, Repr

inductive Token where
  | mark (m : Mark)
  | null
  | boolean (value : Bool)
  | string (value : Bytes)
  deriving DecidableEq, Repr

def Mark.byte : Mark → UInt8
  | .openBrace => Characters.openBrace
  | .closeBrace => Characters.closeBrace
  | .openBracket => Characters.openBracket
  | .closeBracket => Characters.closeBracket
  | .colon => Characters.colon
  | .comma => Characters.comma

mutual

def tokens : Json → List Token
  | .null => [.null]
  | .boolean value => [.boolean value]
  | .string value => [.string value]
  | .array [] => [.mark .openBracket, .mark .closeBracket]
  | .array (item :: items) =>
      .mark .openBracket :: (tokens item ++ moreItems items ++ [.mark .closeBracket])
  | .object [] => [.mark .openBrace, .mark .closeBrace]
  | .object ((key, value) :: members) =>
      .mark .openBrace :: .string key :: .mark .colon ::
        (tokens value ++ moreMembers members ++ [.mark .closeBrace])

/-- Items after the first one. -/
def moreItems : List Json → List Token
  | [] => []
  | item :: items => .mark .comma :: (tokens item ++ moreItems items)

/-- Members after the first one. -/
def moreMembers : List (Bytes × Json) → List Token
  | [] => []
  | (key, value) :: members =>
      .mark .comma :: .string key :: .mark .colon :: (tokens value ++ moreMembers members)

end

/-- The supported escapes: the letter after the backslash, and the byte. -/
def escapes : List (UInt8 × UInt8) :=
  [(110, 10), (116, 9), (114, 13), (doubleQuote, doubleQuote), (backslash, backslash),
    (slash, slash)]

/-- The spellings of the bytes of a string. -/
inductive Body : Bytes → Bytes → Prop where
  | nil : Body [] []
  | raw {byte : UInt8} {value text : Bytes} (hquote : byte ≠ doubleQuote)
      (hbackslash : byte ≠ backslash) :
      Body value text → Body (byte :: value) (byte :: text)
  | escaped {letter byte : UInt8} {value text : Bytes} (hescape : (letter, byte) ∈ escapes) :
      Body value text → Body (byte :: value) (backslash :: letter :: text)

inductive Spelled : Token → Bytes → Prop where
  | mark (m : Mark) : Spelled (.mark m) [m.byte]
  | nullWord : Spelled .null (ascii "null")
  | trueWord : Spelled (.boolean true) (ascii "true")
  | falseWord : Spelled (.boolean false) (ascii "false")
  | string {value text : Bytes} :
      Body value text → Spelled (.string value) (doubleQuote :: (text ++ [doubleQuote]))

/-- Tokens with whitespace before, between and after them. -/
inductive Written : List Token → Bytes → Prop where
  | nil {space : Bytes} : space.all isSpace = true → Written [] space
  | cons {space text rest : Bytes} {token : Token} {tokens : List Token} :
      space.all isSpace = true → Spelled token text → Written tokens rest →
      Written (token :: tokens) (space ++ (text ++ rest))

def Renders (json : Json) (text : Bytes) : Prop := Written json.tokens text

/-- The first byte of every spelling. -/
def Token.first : Token → UInt8
  | .mark m => m.byte
  | .null => 110
  | .boolean true => 116
  | .boolean false => 102
  | .string _ => doubleQuote

theorem Token.first_not_space (token : Token) : isSpace token.first = false := by
  match token with
  | .mark m => cases m <;> decide
  | .null => decide
  | .boolean true => decide
  | .boolean false => decide
  | .string _ => exact (by decide : isSpace doubleQuote = false)

theorem Spelled.eq_cons {token : Token} {text : Bytes} (h : Spelled token text) :
    ∃ rest, text = token.first :: rest := by
  cases h with
  | mark m => exact ⟨[], rfl⟩
  | nullWord => exact ⟨_, rfl⟩
  | trueWord => exact ⟨_, rfl⟩
  | falseWord => exact ⟨_, rfl⟩
  | string _ => exact ⟨_, rfl⟩

/-- A value never begins with a closing bracket. -/
theorem tokens_eq_cons (json : Json) :
    ∃ token toks, json.tokens = token :: toks ∧ token.first ≠ closeBracket := by
  match json with
  | .null => exact ⟨_, _, rfl, by decide⟩
  | .boolean true => exact ⟨_, _, rfl, by decide⟩
  | .boolean false => exact ⟨_, _, rfl, by decide⟩
  | .string _ => exact ⟨_, _, rfl, (by decide : doubleQuote ≠ closeBracket)⟩
  | .array [] => exact ⟨_, _, rfl, by decide⟩
  | .array (_ :: _) => exact ⟨_, _, rfl, by decide⟩
  | .object [] => exact ⟨_, _, rfl, by decide⟩
  | .object ((_, _) :: _) => exact ⟨_, _, rfl, by decide⟩

/-! What the scanners return, in terms of the text that is left. -/

section Scanners
variable {t rest : Bytes} {p : Nat} {c : UInt8}

theorem lt_of_drop (h : t.drop p = c :: rest) : p < t.length := by
  have hlength := congrArg List.length h
  rw [List.length_drop, List.length_cons] at hlength
  omega

theorem drop_succ_of_drop (h : t.drop p = c :: rest) : t.drop (p + 1) = rest := by
  rw [← List.drop_drop, h]
  rfl

theorem byteAt_result (h : t.drop p = c :: rest) : (byteAt t p).result = .ok c := by
  have hget : t.getD p 0 = (t.drop p).getD 0 0 := by
    rw [List.getD_eq_getElem?_getD, List.getD_eq_getElem?_getD, List.getElem?_drop, Nat.add_zero]
  rw [h] at hget
  exact congrArg Except.ok hget

theorem skipWs_result (t : Bytes) (p : Nat) :
    (skipWs t p).result = .ok (p + ((t.drop p).takeWhile isSpace).length) := by
  fun_induction skipWs t p with
  | case1 p hp ih =>
      obtain ⟨c, rest, hdrop⟩ : ∃ c rest, t.drop p = c :: rest :=
        List.exists_cons_of_ne_nil (by rwa [ne_eq, List.drop_eq_nil_iff, not_le])
      rw [bind_of_ok (byteAt_result hdrop), hdrop, List.takeWhile_cons]
      cases hspace : isSpace c with
      | true =>
          rw [if_pos rfl, ih, drop_succ_of_drop hdrop, if_pos rfl, List.length_cons]
          congr 1
          omega
      | false => rfl
  | case2 p hp =>
      rw [List.drop_eq_nil_of_le (not_lt.mp hp)]
      rfl

theorem nextIs_result (h : t.drop p = c :: rest) (d : UInt8) :
    (nextIs t p d).result = .ok (decide (c = d)) := by
  rw [nextIs, if_pos (lt_of_drop h), bind_of_ok (byteAt_result h)]
  rfl

theorem expect_result (h : t.drop p = c :: rest) : (expect t p c).result = .ok (p + 1) := by
  rw [expect, bind_of_ok (nextIs_result h c), decide_eq_true rfl]
  rfl

theorem literal_result {word : Bytes} (h : t.drop p = word ++ rest) (value : Json) :
    (literal t p word value).result = .ok (value, p + word.length) := by
  have hslice : slice t p word.length = word := by
    rw [slice, h, List.take_left']
    rfl
  rw [literal, report_bind_result, if_pos hslice]
  rfl

theorem unescape_of_mem {letter byte : UInt8} (h : (letter, byte) ∈ escapes) :
    unescape letter = some byte := by
  simp only [escapes, List.mem_cons, Prod.mk.injEq, List.not_mem_nil, or_false] at h
  obtain ⟨rfl, rfl⟩ | ⟨rfl, rfl⟩ | ⟨rfl, rfl⟩ | ⟨rfl, rfl⟩ | ⟨rfl, rfl⟩ | ⟨rfl, rfl⟩ := h <;> rfl

/-- By induction on the spellings of the bytes, with what was pushed before them. -/
theorem readString_result {value text : Bytes} (hbody : Body value text) (out : Bytes) (p : Nat)
    (h : t.drop p = text ++ doubleQuote :: rest) :
    (readString t out p).result = .ok (out ++ value, p + text.length) := by
  induction hbody generalizing out p with
  | nil =>
      rw [readString, if_pos (lt_of_drop h), bind_of_ok (byteAt_result h), if_pos rfl,
        List.append_nil]
      rfl
  | @raw byte value text hquote hbackslash _ ih =>
      rw [readString, if_pos (lt_of_drop h), bind_of_ok (byteAt_result h), if_neg hquote,
        bind_of_ok (byteAt_result h), if_neg hbackslash, bind_of_ok (byteAt_result h),
        ih _ _ (drop_succ_of_drop h), List.append_assoc, List.length_cons]
      congr 2
      omega
  | @escaped letter byte value text hescape _ ih =>
      have hletter : t.drop (p + 1) = letter :: (text ++ doubleQuote :: rest) := drop_succ_of_drop h
      rw [readString, if_pos (lt_of_drop h), bind_of_ok (byteAt_result h), if_neg (by decide),
        bind_of_ok (byteAt_result h), if_pos rfl, if_pos (lt_of_drop hletter),
        bind_of_ok (byteAt_result hletter), unescape_of_mem hescape]
      have hrest := ih (out ++ [byte]) (p + 2) (drop_succ_of_drop hletter)
      have hlength : p + (backslash :: letter :: text).length = p + 2 + text.length := by
        rw [List.length_cons, List.length_cons]
        omega
      rw [List.append_assoc] at hrest
      rw [hlength]
      exact hrest

end Scanners

/-! Tokens from a position on. -/

/-- The first token begins at the position itself. -/
def Starts (t : Bytes) (p : Nat) (token : Token) (toks : List Token) : Prop :=
  ∃ text rest, t.drop p = text ++ rest ∧ Spelled token text ∧ Written toks rest

section Tokens
variable {t : Bytes} {p : Nat} {token : Token} {toks : List Token}

theorem Starts.written (h : Starts t p token toks) : Written (token :: toks) (t.drop p) := by
  obtain ⟨text, rest, hdrop, hspelled, hrest⟩ := h
  have hwritten := Written.cons (rfl : ([] : Bytes).all isSpace = true) hspelled hrest
  rw [hdrop]
  exact hwritten

theorem Starts.drop (h : Starts t p token toks) : ∃ rest, t.drop p = token.first :: rest := by
  obtain ⟨text, rest, hdrop, hspelled, _⟩ := h
  obtain ⟨more, rfl⟩ := hspelled.eq_cons
  exact ⟨more ++ rest, hdrop⟩

theorem Starts.mark {m : Mark} (h : Starts t p (.mark m) toks) : Written toks (t.drop (p + 1)) := by
  obtain ⟨text, rest, hdrop, hspelled, hrest⟩ := h
  cases hspelled with
  | mark m =>
      rw [drop_succ_of_drop hdrop]
      exact hrest

theorem Starts.nextIs (h : Starts t p token toks) (c : UInt8) :
    (nextIs t p c).result = .ok (decide (token.first = c)) := by
  obtain ⟨rest, hdrop⟩ := h.drop
  exact nextIs_result hdrop c

theorem Starts.expect {m : Mark} (h : Starts t p (.mark m) toks) :
    (expect t p m.byte).result = .ok (p + 1) := by
  obtain ⟨rest, hdrop⟩ := h.drop
  exact expect_result hdrop

theorem skipWs_written (h : Written (token :: toks) (t.drop p)) :
    ∃ q, (skipWs t p).result = .ok q ∧ Starts t q token toks := by
  generalize htext : t.drop p = whole at h
  cases h with
  | @cons space text rest _ _ hspace hspelled hrest =>
      obtain ⟨more, hmore⟩ := hspelled.eq_cons
      have hskip : (space ++ (text ++ rest)).takeWhile isSpace = space := by
        rw [List.takeWhile_append_of_pos (List.all_eq_true.mp hspace), hmore, List.cons_append,
          List.takeWhile_cons_of_neg (by rw [token.first_not_space]; decide), List.append_nil]
      refine ⟨p + space.length, ?_, text, rest, ?_, hspelled, hrest⟩
      · rw [skipWs_result, htext, hskip]
      · rw [← List.drop_drop, htext, List.drop_left]

/-- After an opening bracket the next token says whether the container is empty. -/
theorem opened_result (close : UInt8) (empty : Json) (loop : Nat → JsonReader (Json × Nat))
    (h : Written (token :: toks) (t.drop p)) :
    ∃ q, Starts t q token toks ∧
      (skipWs t p >>= fun q => nextIs t q close >>= fun found =>
        if found then pure (empty, q + 1) else loop q).result =
      if token.first = close then .ok (empty, q + 1) else (loop q).result := by
  obtain ⟨q, hskip, hstarts⟩ := skipWs_written h
  refine ⟨q, hstarts, ?_⟩
  rw [bind_of_ok hskip, bind_of_ok (hstarts.nextIs close)]
  by_cases hclose : token.first = close
  · rw [if_pos hclose, decide_eq_true hclose]
    rfl
  · rw [if_neg hclose, decide_eq_false hclose]
    rfl

end Tokens

/-! The three functions that call each other, by induction on the fuel. -/

structure Inverts (t : Bytes) (fuel : Nat) : Prop where
  value : ∀ (json : Json) toks p, 2 * json.tokens.length ≤ fuel →
    Written (json.tokens ++ toks) (t.drop p) →
    ∃ q, (parseValue t fuel p).result = .ok (json, q) ∧ Written toks (t.drop q)
  items : ∀ (item : Json) items done toks p,
    2 * (item.tokens ++ moreItems items).length + 1 ≤ fuel →
    Written (item.tokens ++ (moreItems items ++ .mark .closeBracket :: toks)) (t.drop p) →
    ∃ q, (parseItems t fuel done p).result = .ok (.array (done ++ item :: items), q) ∧
      Written toks (t.drop q)
  members : ∀ key (value : Json) members done toks p,
    2 * (value.tokens ++ moreMembers members).length + 3 ≤ fuel →
    Written (.string key :: .mark .colon ::
      (value.tokens ++ (moreMembers members ++ .mark .closeBrace :: toks))) (t.drop p) →
    ∃ q, (parseMembers t fuel done p).result = .ok (.object (done ++ (key, value) :: members), q) ∧
      Written toks (t.drop q)

section Step
variable {t : Bytes} {fuel p : Nat}

theorem Inverts.items_succ (h : Inverts t fuel) (item : Json) (items done : List Json)
    (toks : List Token) (p : Nat)
    (hfuel : 2 * (item.tokens ++ moreItems items).length + 1 ≤ fuel + 1)
    (hw : Written (item.tokens ++ (moreItems items ++ .mark .closeBracket :: toks)) (t.drop p)) :
    ∃ q, (parseItems t (fuel + 1) done p).result = .ok (.array (done ++ item :: items), q) ∧
      Written toks (t.drop q) := by
  rw [List.length_append] at hfuel
  obtain ⟨q, hitem, hafter⟩ := h.value item _ p (by omega) hw
  rw [parseItems, bind_of_ok hitem]
  cases items with
  | nil =>
      obtain ⟨q', hskip, hstarts⟩ := skipWs_written hafter
      refine ⟨q' + 1, ?_, hstarts.mark⟩
      rw [bind_of_ok hskip, bind_of_ok (hstarts.nextIs comma)]
      exact bind_of_ok hstarts.expect _
  | cons next items =>
      rw [moreItems, List.cons_append, List.append_assoc] at hafter
      rw [moreItems, List.length_cons] at hfuel
      obtain ⟨q', hskip, hstarts⟩ := skipWs_written hafter
      obtain ⟨last, hitems, hrest⟩ :=
        h.items next items (done ++ [item]) toks _ (by omega) hstarts.mark
      refine ⟨last, ?_, hrest⟩
      rw [bind_of_ok hskip, bind_of_ok (hstarts.nextIs comma)]
      rw [List.append_assoc] at hitems
      exact hitems

theorem Inverts.members_succ (h : Inverts t fuel) (key : Bytes) (value : Json)
    (members done : List (Bytes × Json)) (toks : List Token) (p : Nat)
    (hfuel : 2 * (value.tokens ++ moreMembers members).length + 3 ≤ fuel + 1)
    (hw : Written (.string key :: .mark .colon ::
      (value.tokens ++ (moreMembers members ++ .mark .closeBrace :: toks))) (t.drop p)) :
    ∃ q, (parseMembers t (fuel + 1) done p).result =
        .ok (.object (done ++ (key, value) :: members), q) ∧ Written toks (t.drop q) := by
  rw [List.length_append] at hfuel
  obtain ⟨p', hskip, hstarts⟩ := skipWs_written hw
  have hkeyFuel : 2 * (tokens (.string key)).length ≤ fuel := by
    have hone : (tokens (.string key)).length = 1 := rfl
    omega
  obtain ⟨q, hkey, hafter⟩ := h.value (.string key) _ p' hkeyFuel hstarts.written
  obtain ⟨q', hskip', hcolon⟩ := skipWs_written hafter
  obtain ⟨r, hvalue, hafter⟩ := h.value value _ (q' + 1) (by omega) hcolon.mark
  have hexpect : (expect t q' colon).result = .ok (q' + 1) := hcolon.expect
  rw [parseMembers, bind_of_ok hskip, bind_of_ok hkey, bind_of_ok hskip', bind_of_ok hexpect,
    bind_of_ok hvalue]
  cases members with
  | nil =>
      obtain ⟨r', hskip, hstarts⟩ := skipWs_written hafter
      refine ⟨r' + 1, ?_, hstarts.mark⟩
      rw [bind_of_ok hskip, bind_of_ok (hstarts.nextIs comma)]
      exact bind_of_ok hstarts.expect _
  | cons next members =>
      obtain ⟨key', value'⟩ := next
      rw [moreMembers, List.cons_append, List.cons_append, List.cons_append,
        List.append_assoc] at hafter
      rw [moreMembers, List.length_cons, List.length_cons, List.length_cons] at hfuel
      obtain ⟨r', hskip, hstarts⟩ := skipWs_written hafter
      obtain ⟨last, hmembers, hrest⟩ :=
        h.members key' value' members (done ++ [(key, value)]) toks _ (by omega) hstarts.mark
      refine ⟨last, ?_, hrest⟩
      rw [bind_of_ok hskip, bind_of_ok (hstarts.nextIs comma)]
      rw [List.append_assoc] at hmembers
      exact hmembers

/-- A word, given the branch of its first letter. -/
theorem parseValue_word {q : Nat} {word : Bytes} {rest : Bytes} {json : Json} {toks : List Token}
    (hdrop : t.drop q = word ++ rest) (hrest : Written toks rest)
    (hbranch : (parseValue t (fuel + 1) p).result = (literal t q word json).result) :
    ∃ last, (parseValue t (fuel + 1) p).result = .ok (json, last) ∧ Written toks (t.drop last) := by
  refine ⟨q + word.length, hbranch.trans (literal_result hdrop json), ?_⟩
  rw [← List.drop_drop, hdrop, List.drop_left]
  exact hrest

theorem parseValue_array (fuel : Nat) {token : Token} {toks : List Token}
    (hw : Written (.mark .openBracket :: token :: toks) (t.drop p)) :
    ∃ q, Starts t q token toks ∧ (parseValue t (fuel + 1) p).result =
      if token.first = closeBracket then .ok (.array [], q + 1)
      else (parseItems t fuel [] q).result := by
  obtain ⟨p', hskip, hopen⟩ := skipWs_written hw
  obtain ⟨rest, hdrop⟩ := hopen.drop
  obtain ⟨q, hstarts, hopened⟩ :=
    opened_result closeBracket (.array []) (parseItems t fuel []) hopen.mark
  refine ⟨q, hstarts, ?_⟩
  rw [parseValue, bind_of_ok hskip, if_pos (lt_of_drop hdrop), bind_of_ok (byteAt_result hdrop)]
  exact hopened

theorem parseValue_object (fuel : Nat) {token : Token} {toks : List Token}
    (hw : Written (.mark .openBrace :: token :: toks) (t.drop p)) :
    ∃ q, Starts t q token toks ∧ (parseValue t (fuel + 1) p).result =
      if token.first = closeBrace then .ok (.object [], q + 1)
      else (parseMembers t fuel [] q).result := by
  obtain ⟨p', hskip, hopen⟩ := skipWs_written hw
  obtain ⟨rest, hdrop⟩ := hopen.drop
  obtain ⟨q, hstarts, hopened⟩ :=
    opened_result closeBrace (.object []) (parseMembers t fuel []) hopen.mark
  refine ⟨q, hstarts, ?_⟩
  rw [parseValue, bind_of_ok hskip, if_pos (lt_of_drop hdrop), bind_of_ok (byteAt_result hdrop)]
  exact hopened

theorem parseValue_string {value : Bytes} {toks : List Token}
    (hw : Written (.string value :: toks) (t.drop p)) :
    ∃ q, (parseValue t (fuel + 1) p).result = .ok (.string value, q) ∧
      Written toks (t.drop q) := by
  obtain ⟨q, hskip, text, rest, hdrop, hspelled, hrest⟩ := skipWs_written hw
  cases hspelled with
  | @string value text hbody =>
      rw [List.cons_append, List.append_assoc, List.singleton_append] at hdrop
      have hbytes : t.drop (q + 1) = text ++ doubleQuote :: rest := drop_succ_of_drop hdrop
      have hquote : t.drop (q + 1 + text.length) = doubleQuote :: rest := by
        rw [← List.drop_drop, hbytes, List.drop_left]
      refine ⟨q + 1 + text.length + 1, ?_, by rwa [drop_succ_of_drop hquote]⟩
      rw [parseValue, bind_of_ok hskip, if_pos (lt_of_drop hdrop),
        bind_of_ok (byteAt_result hdrop), if_neg (by decide), if_neg (by decide), if_pos rfl,
        bind_of_ok (readString_result hbody [] (q + 1) hbytes)]
      exact bind_of_ok (expect_result hquote) _

/-- One case for each kind of tree; the containers go on with the loop over what they hold. -/
theorem Inverts.value_succ (h : Inverts t fuel) (json : Json) (toks : List Token) (p : Nat)
    (hfuel : 2 * json.tokens.length ≤ fuel + 1)
    (hw : Written (json.tokens ++ toks) (t.drop p)) :
    ∃ q, (parseValue t (fuel + 1) p).result = .ok (json, q) ∧ Written toks (t.drop q) := by
  match json with
  | .null =>
      obtain ⟨q, hskip, text, rest, hdrop, hspelled, hrest⟩ := skipWs_written hw
      cases hspelled
      refine parseValue_word hdrop hrest ?_
      rw [parseValue, bind_of_ok hskip, if_pos (lt_of_drop hdrop),
        bind_of_ok (byteAt_result hdrop)]
      rfl
  | .boolean value =>
      obtain ⟨q, hskip, text, rest, hdrop, hspelled, hrest⟩ := skipWs_written hw
      cases hspelled with
      | trueWord =>
          refine parseValue_word hdrop hrest ?_
          rw [parseValue, bind_of_ok hskip, if_pos (lt_of_drop hdrop),
            bind_of_ok (byteAt_result hdrop)]
          rfl
      | falseWord =>
          refine parseValue_word hdrop hrest ?_
          rw [parseValue, bind_of_ok hskip, if_pos (lt_of_drop hdrop),
            bind_of_ok (byteAt_result hdrop)]
          rfl
  | .string value => exact parseValue_string hw
  | .array [] =>
      obtain ⟨q, hclose, hbranch⟩ := parseValue_array fuel hw
      exact ⟨q + 1, hbranch, hclose.mark⟩
  | .array (item :: items) =>
      obtain ⟨token, more, htokens, hfirst⟩ := tokens_eq_cons item
      rw [tokens, List.length_cons, List.length_append, List.length_singleton] at hfuel
      rw [tokens, htokens, List.cons_append, List.append_assoc, List.cons_append,
        List.cons_append] at hw
      obtain ⟨q, hstarts, hbranch⟩ := parseValue_array fuel hw
      rw [if_neg hfirst] at hbranch
      have hitems := hstarts.written
      rw [List.append_assoc, ← List.cons_append, ← htokens] at hitems
      rw [hbranch]
      exact h.items item items [] toks q (by omega) hitems
  | .object [] =>
      obtain ⟨q, hclose, hbranch⟩ := parseValue_object fuel hw
      exact ⟨q + 1, hbranch, hclose.mark⟩
  | .object ((key, value) :: members) =>
      rw [tokens, List.length_cons, List.length_cons, List.length_cons, List.length_append,
        List.length_singleton] at hfuel
      rw [tokens, List.cons_append, List.cons_append, List.cons_append, List.append_assoc,
        List.append_assoc] at hw
      obtain ⟨q, hstarts, hbranch⟩ := parseValue_object fuel hw
      rw [hbranch]
      exact h.members key value members [] toks q (by omega) hstarts.written

end Step

theorem inverts (t : Bytes) (fuel : Nat) : Inverts t fuel := by
  induction fuel with
  | zero =>
      refine ⟨?_, nofun, nofun⟩
      intro json toks p hfuel
      obtain ⟨token, more, htokens, _⟩ := tokens_eq_cons json
      rw [htokens, List.length_cons] at hfuel
      omega
  | succ fuel ih => exact ⟨ih.value_succ, ih.items_succ, ih.members_succ⟩

/-- No token is written without a byte. -/
theorem length_le_of_written {toks : List Token} {text : Bytes} (h : Written toks text) :
    toks.length ≤ text.length := by
  induction h with
  | nil _ => exact Nat.zero_le _
  | cons _ hspelled _ ih =>
      obtain ⟨rest, rfl⟩ := hspelled.eq_cons
      rw [List.length_cons, List.length_append, List.length_append, List.length_cons]
      omega

theorem skipWs_end {t : Bytes} {p : Nat} (hp : p ≤ t.length) (h : Written [] (t.drop p)) :
    (skipWs t p).result = .ok t.length := by
  generalize hspace : t.drop p = space at h
  cases h with
  | nil hall =>
      have hlength := congrArg List.length hspace
      rw [List.length_drop] at hlength
      rw [skipWs_result, hspace, List.takeWhile_eq_self_iff.mpr (List.all_eq_true.mp hall),
        ← hlength, Nat.add_sub_cancel' hp]

theorem parse_rendering {fuel : Nat} {json : Json} {text : Bytes}
    (hfuel : 2 * text.length + 1 ≤ fuel) (h : Renders json text) :
    (parse fuel text).result = .ok json := by
  have hlength := length_le_of_written h
  have hw : Written (json.tokens ++ []) (text.drop 0) := by
    rw [List.append_nil]
    exact h
  obtain ⟨pos, hvalue, hend⟩ := (inverts text fuel).value json [] 0 (by omega) hw
  have hpast := ((bounded text fuel).value 0 (Nat.zero_le _) hfuel).1.2 _ hvalue
  rw [parse, bind_of_ok hvalue]
  refine (bind_of_ok (skipWs_end hpast.2 hend) _).trans ?_
  rw [if_neg (not_not.mpr rfl)]
  rfl

/-- Every rendering of a tree is read back as the tree. On every text the reader stops, with the
same outcome for all fuel from some on, and reads bytes of the text only. -/
theorem parse_exact :
    (∀ json text fuel, Renders json text → 2 * text.length + 1 ≤ fuel →
      (parse fuel text).result = .ok json) ∧
    ∀ text, ∃ outcome : JsonReader Json,
      (∀ fuel, 2 * text.length + 1 ≤ fuel → parse fuel text = outcome) ∧
      outcome.result ≠ .error .exhausted ∧
      ∀ access ∈ outcome.events, access.Exact text.length := by
  refine ⟨fun json text fuel h hfuel => parse_rendering hfuel h, ?_⟩
  intro text
  have hreads := reads_parse (Nat.le_refl (2 * text.length + 1))
  exact ⟨_, fun fuel hfuel => parse_eq_of_le hfuel hreads.2, hreads.2, hreads.1.1⟩

/-- `{"\n": [true,` and, on a second line, `null ] }`. -/
theorem parse_exact_lines :
    (parse 45 [123, 34, 92, 110, 34, 58, 32, 91, 116, 114, 117, 101, 44, 10, 110, 117, 108, 108, 32,
      93, 32, 125]).result = .ok (.object [([10], .array [.boolean true, .null])]) := by
  have hnone : ([] : Bytes).all isSpace = true := rfl
  have hspace : ([32] : Bytes).all isSpace = true := rfl
  have hline : ([10] : Bytes).all isSpace = true := rfl
  have hkey : Body [10] [backslash, 110] := .escaped (List.mem_cons_self) .nil
  have hend := Written.cons hspace (.mark .closeBracket) <|
    Written.cons hspace (.mark .closeBrace) (Written.nil hnone)
  have hitems := Written.cons hspace (.mark .openBracket) <| Written.cons hnone .trueWord <|
    Written.cons hnone (.mark .comma) (Written.cons hline .nullWord hend)
  have hobject := Written.cons hnone (.mark .openBrace) <| Written.cons hnone (.string hkey) <|
    Written.cons hnone (.mark .colon) hitems
  exact parse_exact.1 _ _ 45 hobject (by decide)

end CppRag.Json
