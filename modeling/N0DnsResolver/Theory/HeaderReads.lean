/-
  Header reads of raw replies.

  The readers of `header_buffer` panic on bytes they do not find. All callers but
  one check the length of a whole header first. `answers_query` reads the flags once
  the transaction id matches, so its guard is that of `header_buffer::id`, which
  yields no id short of a whole header.
-/
import N0DnsResolver.Model.Answers

namespace N0DnsResolver

/-- How a nameserver's bytes reach the resolver. -/
inductive Delivery where
  | datagram
  | frame
  | httpsBody
  deriving DecidableEq, Repr

section HeaderReads

variable (S : SimpleDns)

/-- Every function that inspects a reply so delivered returns: the transports ask datagrams and
frames whether they answer the query, and datagrams whether they are truncated. -/
structure Inspected (delivery : Delivery) (response query : Bytes) : Prop where
  answersQuery : delivery ≠ .httpsBody → (answersQuery S response query).Returns
  isTruncated : delivery = .datagram → (isTruncated S response).Returns
  isFormatError : (isFormatError S response).Returns
  retryableFailureRcode : (retryableFailureRcode S response).Returns
  parsePacket : (parsePacket S response).Returns
  parseRecords : ∀ kind, (parseRecords S response kind).Returns
  negativeTtl : (negativeTtl S response).Returns

/-- The reply carries the query's transaction id and ends before its flags. -/
def ShortMatch (response query : Bytes) : Prop :=
  response.length < 4 ∧ ∃ id, HeaderBuffer.id S response = some id ∧
    HeaderBuffer.id S query = some id

variable {S}

/-- From four bytes on, no read of `answers_query` is out of bounds. -/
theorem answersQuery_returns_of_length {response : Bytes} (h : 4 ≤ response.length)
    (query : Bytes) : (answersQuery S response query).Returns := by
  unfold answersQuery
  cases HeaderBuffer.id S response with
  | none => exact Checked.returns_ok false
  | some id =>
    simp only [hasFlags_eq_ok S h, parsePacket_eq, bind, Except.bind]
    split
    · exact Checked.returns_ok false
    · split
      · exact Checked.returns_ok false
      · cases parsedPacket S response with
        | error e => exact Checked.returns_ok true
        | ok packet =>
          simp only
          split
          · exact Checked.returns_ok true
          · split
            · exact Checked.returns_ok true
            · exact Checked.returns_ok _

/-- Below, the flags are read exactly when the ids match: all rests on where `header_buffer::id`
gives an id. -/
theorem answersQuery_returns_iff (response query : Bytes) :
    (answersQuery S response query).Returns ↔ ¬ ShortMatch S response query := by
  by_cases hlen : 4 ≤ response.length
  · refine iff_of_true (answersQuery_returns_of_length hlen query) ?_
    rintro ⟨hshort, -⟩
    omega
  · have hshort : response.length < 4 := by omega
    have hflags : HeaderBuffer.hasFlags S response .response = .error .indexOutOfBounds :=
      Checked.needs_eq_error hshort _
    unfold answersQuery
    cases hid : HeaderBuffer.id S response with
    | none =>
      refine iff_of_true (Checked.returns_ok false) ?_
      rintro ⟨-, id, hsome, -⟩
      exact nomatch hid.symm.trans hsome
    | some id =>
      simp only [hflags]
      by_cases hquery : HeaderBuffer.id S query = some id
      · rw [if_neg (not_not_intro hquery)]
        refine iff_of_false (Checked.not_returns_error _) (fun h => h ?_)
        exact ⟨hshort, id, hid, hquery⟩
      · rw [if_pos hquery]
        refine iff_of_true (Checked.returns_ok false) ?_
        rintro ⟨-, id', hid', hquery'⟩
        rw [Option.some.inj (hid.symm.trans hid')] at hquery
        exact hquery hquery'

/-- An id is read off a whole header only, so no reply that is cut short has one. -/
theorem not_shortMatch (hid : S.IdNeedsHeader) (response query : Bytes) :
    ¬ ShortMatch S response query := by
  rintro ⟨hshort, id, hread, -⟩
  have hlen := hid response id hread
  omega

/-- Every function that inspects a reply returns, whatever the bytes, the way they came and the
query. -/
theorem replies_inspected (hid : S.IdNeedsHeader) (delivery : Delivery) (response query : Bytes) :
    Inspected S delivery response query where
  answersQuery _ :=
    (answersQuery_returns_iff response query).mpr (not_shortMatch hid response query)
  isTruncated _ := isTruncated_returns S response
  isFormatError := isFormatError_returns S response
  retryableFailureRcode := retryableFailureRcode_returns S response
  parsePacket := parsePacket_returns S response
  parseRecords := parseRecords_returns S response
  negativeTtl := negativeTtl_returns S response

end HeaderReads

/-- Three bytes that start with the id of the query, an A query for `db`, do not answer it. -/
theorem replies_inspected_short :
    Inspected (SimpleDns.ofTable []) .datagram [18, 52, 129]
        [18, 52, 1, 0, 0, 1, 0, 0, 0, 0, 0, 0, 2, 100, 98, 0, 0, 1, 0, 1] ∧
      answersQuery (SimpleDns.ofTable []) [18, 52, 129]
        [18, 52, 1, 0, 0, 1, 0, 0, 0, 0, 0, 0, 2, 100, 98, 0, 0, 1, 0, 1] = .ok false :=
  ⟨replies_inspected (SimpleDns.ofTable_idNeedsHeader []) _ _ _, by rfl⟩

end N0DnsResolver
