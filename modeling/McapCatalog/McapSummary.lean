import McapCatalog.PyError
import McapCatalog.Library.KeyedRows

/-!
# What the MCAP summary says about a recording

`mcap_summary.py`.  The summary section itself is parsed by the `mcap` package; `Summary` is what
`make_reader(stream).get_summary()` hands back, and everything after that is the catalog builder's own.

* `summaryFromStream` — `FileSummary` from a parsed summary.  A channel without messages is listed in
  `summary.channels` but absent from `channel_message_counts`, so the count is read with a default of `0`;
* `deriveTags` — the embedded tags of a recording: none in this version.
-/

namespace McapCatalog.McapSummary

open McapCatalog.PyText McapCatalog.PyError McapCatalog.KeyedRows

/-- A schema record of the summary section. -/
structure Schema where
  name : PyStr
  encoding : PyStr

/-- A channel record of the summary section. -/
structure Channel where
  id : ℕ
  topic : PyStr
  schemaId : ℕ

/-- The statistics record of the summary section. -/
structure Statistics where
  messageStartTime : ℕ
  messageEndTime : ℕ
  messageCount : ℕ
  chunkCount : ℕ
  channelMessageCounts : Rows ℕ ℕ

/-- A parsed summary section; `channels` are the values of its dictionary in order. -/
structure Summary where
  statistics : Option Statistics
  channels : List Channel
  schemas : Rows ℕ Schema

/-- `ChannelInfo`. -/
structure ChannelInfo where
  channelId : ℕ
  topic : PyStr
  schemaName : PyStr
  schemaEncoding : PyStr
  messageCount : ℕ
  deriving DecidableEq

/-- `FileSummary`. -/
structure FileSummary where
  startTimeNs : ℕ
  endTimeNs : ℕ
  messageCount : ℕ
  chunkCount : ℕ
  channels : List ChannelInfo
  deriving DecidableEq

/-- `summary_from_stream`, from the parser's result on. -/
def summaryFromStream (summary : Option Summary) : Except PyErr FileSummary :=
  match summary with
  | none => .error (.valueError (py "no summary/statistics in MCAP"))
  | some summary =>
    match summary.statistics with
    | none => .error (.valueError (py "no summary/statistics in MCAP"))
    | some statistics =>
      .ok
        { startTimeNs := statistics.messageStartTime
          endTimeNs := statistics.messageEndTime
          messageCount := statistics.messageCount
          chunkCount := statistics.chunkCount
          channels := summary.channels.map fun ch =>
            { channelId := ch.id
              topic := ch.topic
              schemaName := ((summary.schemas.lookup ch.schemaId).map Schema.name).getD []
              schemaEncoding := ((summary.schemas.lookup ch.schemaId).map Schema.encoding).getD []
              messageCount := (statistics.channelMessageCounts.lookup ch.id).getD 0 } }

/-- `derive_tags`. -/
def deriveTags (_summary : FileSummary) : List (PyStr × PyStr) := []

end McapCatalog.McapSummary
