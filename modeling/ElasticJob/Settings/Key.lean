import ElasticJob.Properties.Basic

/-!
The keys of the configuration of inputs and outputs, their defaults, and the sets of keys that each
kind of component accepts. A key qualifies when one of the component's key sets holds it, or when it
starts with one of the accepted starts; other keys are left out without an error. Modernizing moves
the value of a legacy key to the current keys that it stands for, except to one that is set already;
the legacy key goes away in any case. The table of legacy keys is a parameter, so that the order of
its entries can be varied.
-/

namespace ElasticJob.Settings

namespace Key

def keyClass : String := "dagflow.runtime.key.class"

def valueClass : String := "dagflow.runtime.value.class"

def partitionerClass : String := "dagflow.runtime.partitioner.class"

def keyComparatorClass : String := "dagflow.runtime.key.comparator.class"

def keySecondaryComparatorClass : String := "dagflow.runtime.key.secondary.comparator.class"

def groupComparatorClass : String := "dagflow.runtime.group.comparator.class"

def internalSorterClass : String := "dagflow.runtime.internal.sorter.class"

def compress : String := "dagflow.runtime.compress"

def compressCodec : String := "dagflow.runtime.compress.codec"

def unorderedOutputBufferSizeMb : String := "dagflow.runtime.unordered.output.buffer.size-mb"

def readAhead : String := "dagflow.runtime.ifile.readahead"

def readAheadBytes : String := "dagflow.runtime.ifile.readahead.bytes"

def recordsBeforeProgress : String := "dagflow.runtime.records.before.progress"

def ioSortFactor : String := "dagflow.runtime.io.sort.factor"

def ioSortMb : String := "dagflow.runtime.io.sort.mb"

def sortSpillPercent : String := "dagflow.runtime.sort.spill.percent"

def indexCacheMemoryLimitBytes : String := "dagflow.runtime.index.cache.memory.limit.bytes"

def combineMinSpills : String := "dagflow.runtime.combine.min.spills"

def taskMemory : String := "dagflow.runtime.task.memory"

def shuffleParallelCopies : String := "dagflow.runtime.shuffle.parallel.copies"

def shuffleFetchFailuresLimit : String := "dagflow.runtime.shuffle.fetch.failures.limit"

def shuffleNotifyReaderror : String := "dagflow.runtime.shuffle.notify.readerror"

def shuffleConnectTimeout : String := "dagflow.runtime.shuffle.connect.timeout"

def shuffleReadTimeout : String := "dagflow.runtime.shuffle.read.timeout"

def shuffleEnableSsl : String := "dagflow.runtime.shuffle.ssl.enable"

def shuffleInputBufferPercent : String := "dagflow.runtime.shuffle.fetch.buffer.percent"

def shuffleMemoryLimitPercent : String := "dagflow.runtime.shuffle.memory.limit.percent"

def shuffleMergePercent : String := "dagflow.runtime.shuffle.merge.percent"

def shuffleMemtomemSegments : String := "dagflow.runtime.shuffle.memory-to-memory.segments"

def shuffleEnableMemtomem : String := "dagflow.runtime.shuffle.memory-to-memory.enable"

def inputBufferPercent : String := "dagflow.runtime.task.input.buffer.percent"

/-- How many destination tasks a scattered output is routed to, where a manager changed it. -/
def destinationTaskCount : String := "dagflow.runtime.destination.task-count"

def ioFileBufferSize : String := "io.file.buffer.size"

def ioSerializations : String := "io.serializations"

end Key

def ownedDefaults : List (String × String) :=
  [(Key.compress, "false"), (Key.unorderedOutputBufferSizeMb, "100"), (Key.readAhead, "true"),
    (Key.readAheadBytes, "4194304"), (Key.recordsBeforeProgress, "10000"),
    (Key.ioSortFactor, "100"), (Key.ioSortMb, "100"), (Key.sortSpillPercent, "0.8"),
    (Key.indexCacheMemoryLimitBytes, "1048576"), (Key.combineMinSpills, "3"),
    (Key.shuffleParallelCopies, "20"), (Key.shuffleFetchFailuresLimit, "5"),
    (Key.shuffleNotifyReaderror, "true"), (Key.shuffleConnectTimeout, "180000"),
    (Key.shuffleReadTimeout, "180000"), (Key.shuffleEnableSsl, "false"),
    (Key.shuffleInputBufferPercent, "0.7"), (Key.shuffleMemoryLimitPercent, "0.25"),
    (Key.shuffleMergePercent, "0.9"), (Key.shuffleMemtomemSegments, "100"),
    (Key.shuffleEnableMemtomem, "false"), (Key.inputBufferPercent, "0.0")]

def otherDefaults : List (String × String) :=
  [(Key.ioFileBufferSize, "131072")]

/-- Every key that the framework owns; a partitioner may set none of them. -/
def ownedKeys : List String :=
  ownedDefaults.map Prod.fst ++
  [Key.keyClass, Key.valueClass, Key.partitionerClass, Key.keyComparatorClass,
    Key.keySecondaryComparatorClass, Key.groupComparatorClass, Key.internalSorterClass,
    Key.compressCodec, Key.taskMemory, Key.destinationTaskCount]

def sharedKeys : List String :=
  [Key.ioFileBufferSize, Key.ioSerializations]

/-- A key that starts with one of these is accepted by any component. -/
def sharedStarts : List String :=
  ["io.", "file.", "fs."]

def outputKeys : List String :=
  [Key.keyClass, Key.valueClass, Key.partitionerClass, Key.compress, Key.compressCodec,
    Key.unorderedOutputBufferSizeMb, Key.readAhead, Key.readAheadBytes, Key.recordsBeforeProgress]

def inputKeys : List String :=
  [Key.keyClass, Key.valueClass, Key.compress, Key.compressCodec, Key.readAhead, Key.readAheadBytes,
    Key.shuffleParallelCopies, Key.shuffleFetchFailuresLimit, Key.shuffleNotifyReaderror,
    Key.shuffleConnectTimeout, Key.shuffleReadTimeout, Key.shuffleEnableSsl,
    Key.shuffleInputBufferPercent, Key.shuffleMemoryLimitPercent, Key.shuffleMergePercent,
    Key.inputBufferPercent]

def startsWith (key start : String) : Bool :=
  start.toList.isPrefixOf key.toList

def qualifies (keySets : List (List String)) (starts : List String) (key : String) : Bool :=
  keySets.any (·.contains key) || starts.any (startsWith key)

def selectQualified (keySets : List (List String)) (starts : List String)
    (source : SortedMap String String) : SortedMap String String :=
  source.filter fun key _ => qualifies keySets starts key

def selectDefaults (defaults : List (String × String)) (keys : List String) :
    SortedMap String String :=
  .ofList (defaults.filter fun entry => keys.contains entry.1)

def mergeUnreserved (target source : Properties) (reserved : List String) : Properties :=
  target.extend (source.map.entries.filter fun entry => !reserved.contains entry.1)

namespace Legacy

abbrev Table := List (String × List String)

def table : Table :=
  [("mapreduce.ifile.readahead", [Key.readAhead]),
   ("mapreduce.ifile.readahead.bytes", [Key.readAheadBytes]),
   ("mapreduce.task.merge.progress.records", [Key.recordsBeforeProgress]),
   ("mapreduce.task.io.sort.factor", [Key.ioSortFactor]),
   ("mapreduce.map.sort.spill.percent", [Key.sortSpillPercent]),
   ("mapreduce.task.io.sort.mb", [Key.ioSortMb]),
   ("mapreduce.task.index.cache.limit.bytes", [Key.indexCacheMemoryLimitBytes]),
   ("mapreduce.map.combine.minspills", [Key.combineMinSpills]),
   ("mapreduce.reduce.memory.totalbytes", [Key.taskMemory]),
   ("mapreduce.reduce.shuffle.parallelcopies", [Key.shuffleParallelCopies]),
   ("mapreduce.reduce.shuffle.maxfetchfailures", [Key.shuffleFetchFailuresLimit]),
   ("mapreduce.reduce.shuffle.notify.readerror", [Key.shuffleNotifyReaderror]),
   ("mapreduce.reduce.shuffle.connect.timeout", [Key.shuffleConnectTimeout]),
   ("mapreduce.reduce.shuffle.read.timeout", [Key.shuffleReadTimeout]),
   ("mapreduce.shuffle.ssl.enabled", [Key.shuffleEnableSsl]),
   ("mapreduce.reduce.shuffle.input.buffer.percent", [Key.shuffleInputBufferPercent]),
   ("mapreduce.reduce.shuffle.memory.limit.percent", [Key.shuffleMemoryLimitPercent]),
   ("mapreduce.reduce.shuffle.merge.percent", [Key.shuffleMergePercent]),
   ("mapreduce.reduce.merge.memtomem.threshold", [Key.shuffleMemtomemSegments]),
   ("mapreduce.reduce.merge.memtomem.enabled", [Key.shuffleEnableMemtomem]),
   ("mapreduce.reduce.input.buffer.percent", [Key.inputBufferPercent]),
   ("map.sort.class", [Key.internalSorterClass]),
   ("mapreduce.job.output.group.comparator.class",
    [Key.groupComparatorClass, Key.keySecondaryComparatorClass]),
   ("mapreduce.job.output.key.comparator.class", [Key.keyComparatorClass]),
   ("mapreduce.map.output.key.class", [Key.keyClass]),
   ("mapreduce.map.output.value.class", [Key.valueClass]),
   ("mapreduce.map.output.compress", [Key.compress]),
   ("mapreduce.map.output.compress.codec", [Key.compressCodec])]

def currentKeys? (key : String) : Option (List String) :=
  table.lookup key

def setAbsent (value : String) (properties : Properties) (key : String) : Properties :=
  if properties.contains key then properties else properties.set key value

def modernizeEntry (properties : Properties) (entry : String × List String) : Properties :=
  match properties.get? entry.1 with
  | none => properties
  | some value => entry.2.foldl (setAbsent value) (properties.unset entry.1)

def modernizeBy (table : Table) (properties : Properties) : Properties :=
  table.foldl modernizeEntry properties

def modernize (properties : Properties) : Properties :=
  modernizeBy table properties

end Legacy

end ElasticJob.Settings
