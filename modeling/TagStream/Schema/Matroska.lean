import TagStream.Schema.Table

/-!
The Matroska document type: the header that every document opens with, the elements that may stand
anywhere, and the common elements of a segment. Blocks are given their structure; a block whose
header cannot be read is left raw. Text of every sort is read as UTF-8, and a date as a signed
number of nanoseconds.
-/

namespace TagStream.Matroska

/-! ### Containers -/

def ebml : ElementId := 0x1A45DFA3
def segment : ElementId := 0x18538067
def seekHead : ElementId := 0x114D9B74
def seek : ElementId := 0x4DBB
def info : ElementId := 0x1549A966
def cluster : ElementId := 0x1F43B675
def blockGroup : ElementId := 0xA0
def tracks : ElementId := 0x1654AE6B
def trackEntry : ElementId := 0xAE
def video : ElementId := 0xE0
def audio : ElementId := 0xE1
def cues : ElementId := 0x1C53BB6B
def cuePoint : ElementId := 0xBB
def cueTrackPositions : ElementId := 0xB7
def chapters : ElementId := 0x1043A770
def editionEntry : ElementId := 0x45B9
def chapterAtom : ElementId := 0xB6
def chapterDisplay : ElementId := 0x80
def tags : ElementId := 0x1254C367
def tag : ElementId := 0x7373
def targets : ElementId := 0x63C0
def simpleTag : ElementId := 0x67C8
def attachments : ElementId := 0x1941A469
def attachedFile : ElementId := 0x61A7

/-! ### Blocks -/

def simpleBlock : ElementId := 0xA3
def groupedBlock : ElementId := 0xA1

/-- The form of block that goes by an id, if the id is that of a block. -/
def blockForm? (id : ElementId) : Option BlockForm :=
  if id = simpleBlock then some .simple
  else if id = groupedBlock then some .grouped
  else none

/-! ### Elements -/

/-- Declares elements under one parent. -/
def under (parent : Parent) (elements : List (ElementId × String × Kind)) : List Row :=
  elements.map fun (id, name, kind) => ⟨id, some name, kind, parent⟩

/-- All declarations. A chapter atom and a simple tag may stand inside another one, which gives each
of them a second declaration. -/
def elements : List Row :=
  under .root
    [(ebml, "EBML", .master), (segment, "Segment", .master)] ++
  under (.element ebml)
    [(0x4286, "EBMLVersion", .unsigned), (0x42F7, "EBMLReadVersion", .unsigned),
      (0x42F2, "EBMLMaxIDLength", .unsigned), (0x42F3, "EBMLMaxSizeLength", .unsigned),
      (0x4282, "DocType", .text), (0x4287, "DocTypeVersion", .unsigned),
      (0x4285, "DocTypeReadVersion", .unsigned)] ++
  under .anywhere
    [(0xEC, "Void", .binary), (0xBF, "CRC-32", .binary)] ++
  under (.element segment)
    [(seekHead, "SeekHead", .master), (info, "Info", .master), (cluster, "Cluster", .master),
      (tracks, "Tracks", .master), (cues, "Cues", .master), (chapters, "Chapters", .master),
      (tags, "Tags", .master), (attachments, "Attachments", .master)] ++
  under (.element seekHead)
    [(seek, "Seek", .master)] ++
  under (.element seek)
    [(0x53AB, "SeekID", .binary), (0x53AC, "SeekPosition", .unsigned)] ++
  under (.element info)
    [(0x73A4, "SegmentUID", .binary), (0x7384, "SegmentFilename", .text),
      (0x2AD7B1, "TimestampScale", .unsigned), (0x4489, "Duration", .float),
      (0x4461, "DateUTC", .signed), (0x7BA9, "Title", .text), (0x4D80, "MuxingApp", .text),
      (0x5741, "WritingApp", .text)] ++
  under (.element cluster)
    [(0xE7, "Timestamp", .unsigned), (0xA7, "Position", .unsigned),
      (0xAB, "PrevSize", .unsigned), (simpleBlock, "SimpleBlock", .binary),
      (blockGroup, "BlockGroup", .master)] ++
  under (.element blockGroup)
    [(groupedBlock, "Block", .binary), (0x9B, "BlockDuration", .unsigned),
      (0xFB, "ReferenceBlock", .signed), (0x75A2, "DiscardPadding", .signed)] ++
  under (.element tracks)
    [(trackEntry, "TrackEntry", .master)] ++
  under (.element trackEntry)
    [(0xD7, "TrackNumber", .unsigned), (0x73C5, "TrackUID", .unsigned),
      (0x83, "TrackType", .unsigned), (0xB9, "FlagEnabled", .unsigned),
      (0x88, "FlagDefault", .unsigned), (0x55AA, "FlagForced", .unsigned),
      (0x9C, "FlagLacing", .unsigned), (0x23E383, "DefaultDuration", .unsigned),
      (0x536E, "Name", .text), (0x22B59C, "Language", .text), (0x86, "CodecID", .text),
      (0x63A2, "CodecPrivate", .binary), (0x258688, "CodecName", .text),
      (0x56AA, "CodecDelay", .unsigned), (0x56BB, "SeekPreRoll", .unsigned),
      (video, "Video", .master), (audio, "Audio", .master)] ++
  under (.element video)
    [(0x9A, "FlagInterlaced", .unsigned), (0xB0, "PixelWidth", .unsigned),
      (0xBA, "PixelHeight", .unsigned), (0x54B0, "DisplayWidth", .unsigned),
      (0x54BA, "DisplayHeight", .unsigned)] ++
  under (.element audio)
    [(0xB5, "SamplingFrequency", .float), (0x78B5, "OutputSamplingFrequency", .float),
      (0x9F, "Channels", .unsigned), (0x6264, "BitDepth", .unsigned)] ++
  under (.element cues)
    [(cuePoint, "CuePoint", .master)] ++
  under (.element cuePoint)
    [(0xB3, "CueTime", .unsigned), (cueTrackPositions, "CueTrackPositions", .master)] ++
  under (.element cueTrackPositions)
    [(0xF7, "CueTrack", .unsigned), (0xF1, "CueClusterPosition", .unsigned),
      (0xF0, "CueRelativePosition", .unsigned)] ++
  under (.element chapters)
    [(editionEntry, "EditionEntry", .master)] ++
  under (.element editionEntry)
    [(chapterAtom, "ChapterAtom", .master)] ++
  under (.element chapterAtom)
    [(chapterAtom, "ChapterAtom", .master), (0x73C4, "ChapterUID", .unsigned),
      (0x91, "ChapterTimeStart", .unsigned), (0x92, "ChapterTimeEnd", .unsigned),
      (chapterDisplay, "ChapterDisplay", .master)] ++
  under (.element chapterDisplay)
    [(0x85, "ChapString", .text), (0x437C, "ChapLanguage", .text)] ++
  under (.element tags)
    [(tag, "Tag", .master)] ++
  under (.element tag)
    [(targets, "Targets", .master), (simpleTag, "SimpleTag", .master)] ++
  under (.element targets)
    [(0x68CA, "TargetTypeValue", .unsigned)] ++
  under (.element simpleTag)
    [(simpleTag, "SimpleTag", .master), (0x45A3, "TagName", .text),
      (0x447A, "TagLanguage", .text), (0x4487, "TagString", .text),
      (0x4485, "TagBinary", .binary)] ++
  under (.element attachments)
    [(attachedFile, "AttachedFile", .master)] ++
  under (.element attachedFile)
    [(0x467E, "FileDescription", .text), (0x466E, "FileName", .text),
      (0x4660, "FileMediaType", .text), (0x465C, "FileData", .binary),
      (0x46AE, "FileUID", .unsigned)]

def table : Table :=
  .ofRows elements

/-- A structured tag for a binary payload: a block, for the two ids that blocks go by. -/
def block? (id : ElementId) (data : List UInt8) : Option Tag :=
  (blockForm? id).bind fun form =>
    (Block.ofPayload? form data).map fun block => ⟨id, table.name id, .block block⟩

/-- The table's schema, with blocks given their structure. -/
def schema : Schema :=
  { table.schema with
    make := fun id value =>
      match value with
      | .binary data => block? id data
      | _ => table.make id value }

end TagStream.Matroska
